import OneShot.Proofs.Ending

/-!
# What a step does to the other routines

A routine that makes a step changes little in others. It may let go of their scopes, so that they are
given up; it may resume one of them, or tell its listener an outcome. Ways to resume do not come from
nowhere: what a machine carries after a step it carried before, but for the body that was suspended in
the step.

`Influences` says all of this about a whole step, and `Beside` about the part of a step in which the
routine is still at work.
-/

namespace OneShot

variable {P V σ : Type}

/-- A scope with more or fewer holders, which may have given its value away. -/
structure Scope.Ages (c c' : Scope P) : Prop where
  ctx : c'.ctx = c.ctx
  clauses : c'.clauses = c.clauses
  finish : c'.finish = c.finish ∨ ∃ t, c.finish = .into (some t) ∧ c'.finish = .into none
  holders : c.holders = 0 → c'.holders = 0

namespace Scope.Ages

variable {c c' c'' : Scope P}

theorem refl (c : Scope P) : c.Ages c := ⟨rfl, rfl, .inl rfl, id⟩

theorem trans (h : c.Ages c') (h' : c'.Ages c'') : c.Ages c'' where
  ctx := h'.ctx.trans h.ctx
  clauses := h'.clauses.trans h.clauses
  finish := by
    rcases h'.finish with heq' | ⟨t, ht, hcut⟩
    · rw [heq']
      exact h.finish
    · rcases h.finish with heq | ⟨u, -, hcut'⟩
      · exact .inr ⟨t, heq ▸ ht, hcut⟩
      · rw [hcut'] at ht
        cases ht
  holders := h'.holders ∘ h.holders

theorem mark (h : c.Ages c') : c'.mark = c.mark := by
  rcases h.finish with heq | ⟨t, ht, hcut⟩
  · rw [Scope.mark, heq, Scope.mark]
  · rw [Scope.mark, hcut, Scope.mark, ht]

end Scope.Ages

namespace Routine

/-- What the status of a routine and its slots are. -/
def slots (r : Routine P V σ) : Status × Slot (Input V) × Slot (Outcome V (Parcel V)) :=
  (r.status, r.inbox, r.outbox)

/-- The scope of a routine is as it was, but for its age. -/
structure Abides (r r' : Routine P V σ) : Prop where
  isSome : r'.scope.isSome = r.scope.isSome
  ages : ∀ c c', r.scope = some c → r'.scope = some c' → c.Ages c'

namespace Abides

variable {r r' r'' : Routine P V σ}

theorem of_eq (h : r'.scope = r.scope) : r.Abides r' := by
  refine ⟨by rw [h], fun c c' hc hc' => ?_⟩
  obtain rfl : c = c' := by simpa [h, hc] using hc'
  exact .refl c

theorem refl (r : Routine P V σ) : r.Abides r := of_eq rfl

theorem exists_scope (h : r.Abides r') {c : Scope P} (hc : r.scope = some c) :
    ∃ c', r'.scope = some c' ∧ c.Ages c' := by
  obtain ⟨c', hc'⟩ := Option.isSome_iff_exists.1 (h.isSome.trans (by rw [hc]; rfl))
  exact ⟨c', hc', h.ages c c' hc hc'⟩

theorem trans (h : r.Abides r') (h' : r'.Abides r'') : r.Abides r'' := by
  refine ⟨h'.isSome.trans h.isSome, fun c c'' hc hc'' => ?_⟩
  obtain ⟨c', hc', ha⟩ := h.exists_scope hc
  exact ha.trans (h'.ages c' c'' hc' hc'')

theorem eq_none (h : r.Abides r') (hs : r.scope = none) : r'.scope = none := by
  have heq := h.isSome
  rw [hs] at heq
  simpa using heq

theorem role (h : r.Abides r') : r'.role = r.role := by
  unfold Routine.role
  cases hc : r.scope with
  | none => rw [h.eq_none hc]
  | some c =>
    obtain ⟨c', hc', ha⟩ := h.exists_scope hc
    rw [hc', Option.map_some, Option.map_some, ha.mark]

/-- A scope answers no body that it did not answer before. -/
theorem into (h : r.Abides r') {t : RoutineId} (ht : r'.into? = some t) : r.into? = some t := by
  unfold into? at ht ⊢
  cases hc : r.scope with
  | none =>
    rw [h.eq_none hc] at ht
    cases ht
  | some c =>
    obtain ⟨c', hc', ha⟩ := h.exists_scope hc
    rw [hc'] at ht
    simp only [Option.bind_some] at ht ⊢
    split at ht
    · next hpos =>
      rcases ha.finish with heq | ⟨u, -, hcut⟩
      · rw [heq] at ht
        rw [if_pos, ht]
        by_contra hzero
        exact Nat.pos_iff_ne_zero.1 hpos (ha.holders (Nat.eq_zero_of_not_pos hzero))
      · rw [hcut] at ht
        cases ht
    · cases ht

theorem of_withHolders {n : Nat} (h : r.holders = 0 → n = 0) : r.Abides (r.withHolders n) := by
  refine ⟨by simp [withHolders], fun c c' hc hc' => ?_⟩
  obtain rfl : { c with holders := n } = c' := by simpa [withHolders, hc] using hc'
  exact ⟨rfl, rfl, .inl rfl, by simpa [holders, hc] using h⟩

end Abides

/-- A routine that has not begun, or has ended, carries nothing and waits for nothing. -/
theorem of_isIdle {r : Routine P V σ} (h : r.isIdle = true) :
    r.control.keys = [] ∧ r.control.need? = none ∧ ∀ c, r.control ≠ .listening c := by
  unfold isIdle at h
  cases hc : r.control with
  | fresh s => exact ⟨rfl, rfl, fun c hc => by cases hc⟩
  | ended => exact ⟨rfl, rfl, fun c hc => by cases hc⟩
  | _ => rw [hc] at h; cases h

/-- A routine that is left alone, or given up. -/
inductive Rests (r r' : Routine P V σ) : Prop where
  | spared (hslots : r'.slots = r.slots) (hcontrol : r'.control = r.control)
  | closed (hs : r.scope.isSome) (hstatus : r.status = .suspending)
    (hslots : r'.slots = (.canceled, .empty, r.outbox))
    (hcontrol : r'.control = .returning (.failure .canceled))

namespace Rests

variable {r r' r'' : Routine P V σ}

theorem refl (r : Routine P V σ) : r.Rests r := .spared rfl rfl

theorem trans (h : r.Rests r') (ha : r.Abides r') (h' : r'.Rests r'') : r.Rests r'' := by
  cases h with
  | spared hslots hcontrol =>
    simp only [slots, Prod.mk.injEq] at hslots
    obtain ⟨hstatus, hinbox, houtbox⟩ := hslots
    cases h' with
    | spared hslots' hcontrol' =>
      refine .spared (hslots'.trans ?_) (hcontrol'.trans hcontrol)
      rw [slots, slots, hstatus, hinbox, houtbox]
    | closed hs hstatus' hslots' hcontrol' =>
      exact .closed (ha.isSome ▸ hs) (hstatus ▸ hstatus') (houtbox ▸ hslots') hcontrol'
  | closed hs hstatus hslots hcontrol =>
    simp only [slots, Prod.mk.injEq] at hslots
    cases h' with
    | spared hslots' hcontrol' =>
      refine .closed hs hstatus (hslots'.trans ?_) (hcontrol'.trans hcontrol)
      rw [slots, hslots.1, hslots.2.1, hslots.2.2]
    | closed _ hstatus' _ _ => cases hslots.1.symm.trans hstatus'

theorem of_fades (h : r.Fades r') : r.Rests r' := by
  cases h with
  | kept n hn => exact .spared rfl rfl
  | closed hstatus hs => exact .closed hs hstatus rfl rfl

/-- The routine carries no way to resume that it did not carry before. -/
theorem keys (h : r.Rests r') : r'.control.keys = r.control.keys ∨ r'.control.keys = [] := by
  cases h with
  | spared _ hcontrol => exact .inl (by rw [hcontrol])
  | closed _ _ _ hcontrol => exact .inr (by rw [hcontrol]; rfl)

theorem need? (h : r.Rests r') : r'.control.need? = r.control.need? ∨ r'.control.need? = none := by
  cases h with
  | spared _ hcontrol => exact .inl (by rw [hcontrol])
  | closed _ _ _ hcontrol => exact .inr (by rw [hcontrol]; rfl)

theorem status_of_suspending (h : r.Rests r') (hs : r'.status = .suspending) :
    r.status = .suspending := by
  cases h with
  | spared hslots => exact (congrArg Prod.fst hslots).symm.trans hs
  | closed _ hstatus => exact hstatus

/-- A routine that listens has not been given up. -/
theorem of_listening (h : r.Rests r') {c : RoutineId} (hc : r'.control = .listening c) :
    r'.slots = r.slots ∧ r.control = .listening c := by
  cases h with
  | spared hslots hcontrol => exact ⟨hslots, hcontrol.symm.trans hc⟩
  | closed _ _ _ hcontrol => cases hc.symm.trans hcontrol

end Rests

theorem Fades.abides {r r' : Routine P V σ} (h : r.Fades r') : r.Abides r' := by
  cases h with
  | kept n hn => exact Abides.of_withHolders fun h0 => Nat.le_zero.1 (h0 ▸ hn)
  | closed _ _ =>
    have hclosed : r.Abides r.closed := .of_eq rfl
    exact hclosed.trans (Abides.of_withHolders fun _ => rfl)

end Routine

/-- What a routine does that waited for something other than a handled body. -/
def Control.IsEased : Control P V σ → Prop
  | .returning o => o.IsPlain
  | .starting (.body _) _ => True
  | .ended => True
  | _ => False

theorem Outcome.IsPlain.signal?_eq_none {o : Outcome V (Parcel V)} (h : o.IsPlain) :
    o.signal? = none := by
  match o, h with
  | .value (.plain v), _ => rfl
  | .failure f, _ => rfl
  | .panic p, _ => rfl

theorem Control.IsEased.keys_eq_nil {c : Control P V σ} (h : c.IsEased) :
    c.keys = [] ∧ c.need? = none := by
  match c, h with
  | .returning o, h =>
    have ho : o.signal? = none := Outcome.IsPlain.signal?_eq_none h
    simp [Control.keys, Control.need?, ho]
  | .starting (.body _) _, _ => exact ⟨rfl, rfl⟩
  | .ended, _ => exact ⟨rfl, rfl⟩

namespace Machine

variable {m m₀ m' : Machine P V σ} {i j s : RoutineId} {hand hand' : List Key}
  {loose due : List RoutineId} {y : Key}

/-- Whether a routine carries a way to resume, or is about to take the signal that brings it. -/
def CarriedBy (m : Machine P V σ) (j : RoutineId) (y : Key) : Prop :=
  y ∈ (m.routine j).control.keys ∨ (m.routine j).pending? = some y

/-- Whether a way to resume is kept in a place, or a routine carries it. -/
def Carries (m : Machine P V σ) (y : Key) : Prop := y ∈ m.kept ∨ ∃ j, m.CarriedBy j y

/-- Whether a routine is about to take a signal that brings a way to resume. -/
def Offers (m : Machine P V σ) (j : RoutineId) (y : Key) : Prop :=
  (∃ x, (m.routine j).control = .returning (.value (.signal x)) ∧ y ∈ x.keys) ∨
    (m.routine j).pending? = some y

/-- Whether routine `i` may resume the body of scope `s`: with a way to resume that is carried, or
because it takes a value that answers the body. -/
def MayResume (m : Machine P V σ) (i s : RoutineId) : Prop :=
  (∃ q, m.Carries ⟨q, s⟩) ∨ ∃ z b st, (m.routine z).into? = some s ∧
    (m.routine i).control = .returning (.value (.signal (.done b))) ∧
    (m.routine i).stack = .dispatch z :: st

/-- Whether a routine waits, but not for a handled body. -/
def WaitsPlainly (m : Machine P V σ) (j : RoutineId) : Prop :=
  match (m.routine j).control with
  | .reading c | .listening c => (m.routine c).scope = none
  | .joining _ _ | .fresh _ => True
  | _ => False

/-- What a step of routine `i` does to another routine. -/
inductive Touches (m : Machine P V σ) (i : RoutineId) (j : RoutineId) (r' : Routine P V σ) :
    Prop where
  | rests (h : (m.routine j).Rests r')
  | resumed (b : Boxed V) (hs : (m.routine j).scope.isSome) (hfrom : m.MayResume i j)
    (hstatus : (m.routine j).status = .suspending) (hslots : r'.slots = (.running, .empty, .awaited i))
    (hcontrol : r'.control = .returning (.value (.boxed b)))
  | told (o : Outcome V (Parcel V)) (hi : (m.routine i).scope.isSome)
    (hlistening : (m.routine j).control = .listening i) (hslots : r'.slots = (m.routine j).slots)
    (hcontrol : r'.control = .returning o)
  | eased (hslots : (m.routine j).scope.isSome → r'.slots = (m.routine j).slots)
    (hcontrol : r'.control = (m.routine j).control ∨ m.WaitsPlainly j ∧ r'.control.IsEased)

/-- What a step does to the handled body that makes it. -/
inductive Moves (i : RoutineId) (r r' : Routine P V σ) : Prop where
  | on (hslots : r'.slots = r.slots) (hcontrol : r'.control ≠ .ended)
  | suspended (hstatus : r.status = .running)
    (hslots : r'.slots = (.suspending, .awaited i, .empty))
  | atEnd (o : Outcome V (Parcel V)) (hcontrol : r'.control = .ended)
    (hstatus : r'.status = o.ending r.status)

/-- What a step of routine `i` does. -/
structure Influences (m : Machine P V σ) (i : RoutineId) (m' : Machine P V σ) : Prop where
  size : m.routines.size ≤ m'.routines.size
  own : (m.routine i).Abides (m'.routine i)
  moves : (m.routine i).scope.isSome → Moves i (m.routine i) (m'.routine i)
  abides : ∀ j, j ≠ i → j.val < m.routines.size → (m.routine j).Abides (m'.routine j)
  stack : ∀ j, j ≠ i → j.val < m.routines.size → (m'.routine j).stack = (m.routine j).stack
  touches : ∀ j, j ≠ i → j.val < m.routines.size → m.Touches i j (m'.routine j)
  kept : ∀ y ∈ m'.kept, m.Carries y
  carried : ∀ j y, m'.CarriedBy j y → m.Carries y ∨ y.scope = i
  /-- Signals bring what they brought before, but for the signal with which the body of the step is
  suspended: it may bring what another signal brought. -/
  offered : ∀ j y, m'.Offers j y → m.Offers j y ∨
    (m'.routine i).control = .reading i ∧ ((∃ l, m.Offers l y) ∨ y.scope = i)
  /-- A scope that was opened runs, and answers a body with what was carried before. -/
  opened : ∀ z, m.routines.size ≤ z.val → (m'.routine z).scope.isSome →
    (m'.routine z).status = .running ∧ ∀ t, (m'.routine z).into? = some t → m.Carries ⟨.result, t⟩
  /-- The value of a body does not come out of a step on top of a frame that waits for it. -/
  done : ∀ b z, (m'.routine i).control = .returning (.value (.signal (.done b))) →
    awaitedScope? (m'.routine i).stack = some z →
      (m.routine i).control = .returning (.value (.signal (.done b))) ∧
        awaitedScope? (m.routine i).stack = some z

/-- What routine `i`, which is still at work, has done with other routines, and has in hand. -/
structure Beside (m : Machine P V σ) (i : RoutineId) (m' : Machine P V σ) (hand : List Key) :
    Prop where
  lt : i.val < m.routines.size
  size : m.routines.size ≤ m'.routines.size
  abides : ∀ j, (m.routine j).Abides (m'.routine j)
  own : (m'.routine i).slots = (m.routine i).slots
  stack : ∀ j, j ≠ i → (m'.routine j).stack = (m.routine j).stack
  rests : ∀ j, j ≠ i → j.val < m.routines.size → (m.routine j).Rests (m'.routine j)
  /-- A routine that was made has not begun. -/
  fresh : ∀ j, m.routines.size ≤ j.val → (m'.routine j).isIdle = true
  carried : ∀ y, y ∈ m'.kept ∨ y ∈ hand → m.Carries y

theorem Offers.carriedBy (h : m.Offers j y) : m.CarriedBy j y :=
  h.imp (fun ⟨x, hx, hy⟩ => by rw [hx]; exact hy) id

/-- A routine carries nothing that has nothing to hand on. -/
theorem not_carriedBy (hkeys : (m.routine j).control.keys = [])
    (hneed : (m.routine j).control.need? = none) : ¬ m.CarriedBy j y := by
  rintro (hy | hy)
  · rw [hkeys] at hy
    cases hy
  · rw [Routine.pending?, hneed] at hy
    cases hy

/-- A routine that is left alone, or given up, brings no way to resume that it did not bring. -/
theorem Offers.of_rests (hr : (m.routine j).Rests (m'.routine j))
    (hst : (m'.routine j).stack = (m.routine j).stack) (h : m'.Offers j y) : m.Offers j y := by
  have hneed := hr.need?
  unfold Offers Routine.pending? at h ⊢
  rw [hst] at h
  refine h.imp ?_ fun h => ?_
  · rintro ⟨x, hx, hy⟩
    cases hr with
    | spared _ hcontrol => exact ⟨x, hcontrol.symm.trans hx, hy⟩
    | closed _ _ _ hcontrol => cases hcontrol.symm.trans hx
  · rcases hneed with heq | heq
    · rwa [heq] at h
    · rw [heq] at h
      cases h

/-- A routine offers nothing whose outcome is no signal. -/
theorem not_offers (h : ∀ x, (m.routine j).control ≠ .returning (.value (.signal x))) :
    ¬ m.Offers j y := by
  rintro (⟨x, hx, -⟩ | hy)
  · exact h x hx
  · unfold Routine.pending? Control.need? at hy
    split at hy
    · next o hc =>
      match o with
      | .value (.signal x) => exact h x hc
      | .value (.plain _) => cases hy
      | .value (.boxed _) => cases hy
      | .failure _ => cases hy
      | .panic _ => cases hy
    · cases hy

/-! ## While the routine is at work -/

theorem AtWork.not_suspending (h : m.AtWork i hand loose due)
    (hs : (m.routine i).scope.isSome) : (m.routine i).status ≠ .suspending := fun hstatus =>
  Control.ne_reading_of_isActive h.active i ((h.linked.phase i hs).suspending hstatus).2.2.1

theorem MayResume.of_carries {q : Mark} (h : m.Carries ⟨q, s⟩) : m.MayResume i s := .inl ⟨q, h⟩

namespace Beside

theorem start (hi : i.val < m.routines.size) (hand : List Key) (h : ∀ y ∈ hand, m.Carries y) :
    m.Beside i m hand where
  lt := hi
  size := le_rfl
  abides _ := .refl _
  own := rfl
  stack _ _ := rfl
  rests _ _ _ := .refl _
  fresh j hj := by
    rw [routine_of_size_le hj]
    rfl
  carried y hy := hy.elim .inl (h y)

theorem weaken (h : m.Beside i m' hand) (hsub : ∀ y ∈ hand', y ∈ hand) : m.Beside i m' hand' :=
  ⟨h.lt, h.size, h.abides, h.own, h.stack, h.rests, h.fresh,
    fun y hy => h.carried y (hy.imp id (hsub y))⟩

/-- The routine changes what it does. -/
theorem update (h : m.Beside i m' hand) {f : Routine P V σ → Routine P V σ}
    (hslots : ∀ r, (f r).slots = r.slots) (hscope : ∀ r, (f r).scope = r.scope) :
    m.Beside i (m'.update i f) hand where
  lt := h.lt
  size := h.size.trans (size_update m' i f).ge
  abides j := by
    rw [routine_update]
    split
    · exact (h.abides j).trans (.of_eq (hscope _))
    · exact h.abides j
  own := by
    rw [routine_update]
    split
    · exact (hslots _).trans h.own
    · exact h.own
  stack j hj := by
    rw [routine_update_of_ne hj.symm]
    exact h.stack j hj
  rests j hj hlt := by
    rw [routine_update_of_ne hj.symm]
    exact h.rests j hj hlt
  fresh j hj := by
    rw [routine_update_of_ne]
    · exact h.fresh j hj
    · rintro rfl
      exact absurd h.lt (Nat.not_lt.2 hj)
  carried := h.carried

theorem pushFrame (h : m.Beside i m' hand) (f : Frame P V σ) :
    m.Beside i (m'.pushFrame i f) hand := h.update (fun _ => rfl) fun _ => rfl

theorem setControl (h : m.Beside i m' hand) (c : Control P V σ) :
    m.Beside i (m'.setControl i c) hand := h.update (fun _ => rfl) fun _ => rfl

/-- A scope gets a holder more, or gives its value away. -/
theorem updateScope (h : m.Beside i m' hand) {f : Routine P V σ → Routine P V σ}
    (habides : (m'.routine s).Abides (f (m'.routine s)))
    (hslots : (f (m'.routine s)).slots = (m'.routine s).slots)
    (hcontrol : (f (m'.routine s)).control = (m'.routine s).control)
    (hstack : (f (m'.routine s)).stack = (m'.routine s).stack) :
    m.Beside i (m'.update s f) hand := by
  have hr : ∀ j, (m'.routine j).Abides ((m'.update s f).routine j) ∧
      ((m'.update s f).routine j).slots = (m'.routine j).slots ∧
      ((m'.update s f).routine j).control = (m'.routine j).control ∧
      ((m'.update s f).routine j).stack = (m'.routine j).stack := by
    intro j
    rw [routine_update]
    split
    · next hsj =>
      obtain ⟨rfl, -⟩ := hsj
      exact ⟨habides, hslots, hcontrol, hstack⟩
    · exact ⟨.refl _, rfl, rfl, rfl⟩
  exact
    { lt := h.lt
      size := h.size.trans (size_update m' s f).ge
      abides := fun j => (h.abides j).trans (hr j).1
      own := (hr i).2.1.trans h.own
      stack := fun j hj => (hr j).2.2.2.trans (h.stack j hj)
      rests := fun j hj hlt =>
        (h.rests j hj hlt).trans (h.abides j) (.spared (hr j).2.1 (hr j).2.2.1)
      fresh := fun j hj => by
        rw [Routine.isIdle, (hr j).2.2.1]
        exact h.fresh j hj
      carried := h.carried }

theorem hold (h : m.Beside i m' hand) (hpos : 0 < m'.holders s) :
    m.Beside i (m'.hold s) hand := by
  refine h.updateScope ?_ rfl rfl rfl
  refine ⟨by simp, fun c c' hc hc' => ?_⟩
  obtain rfl : { c with holders := c.holders + 1 } = c' := by simpa [hc] using hc'
  refine ⟨rfl, rfl, .inl rfl, fun h0 => ?_⟩
  simp only [holders, hc, Option.elim_some, h0] at hpos
  exact absurd hpos (Nat.lt_irrefl 0)

theorem cutFinish (h : m.Beside i m' hand) {c : Scope P} {t : RoutineId}
    (hs : (m'.routine s).scope = some c) (hfin : c.finish = .into (some t)) :
    m.Beside i (m'.update s fun r => { r with scope := some { c with finish := .into none } })
      hand := by
  refine h.updateScope ?_ rfl rfl rfl
  refine ⟨by simp [hs], fun d d' hd hd' => ?_⟩
  obtain rfl : c = d := by simpa [hs] using hd
  obtain rfl : { c with finish := .into none } = d' := by simpa using hd'
  exact ⟨rfl, rfl, .inr ⟨t, hfin, rfl⟩, id⟩

/-- Scopes are let go. -/
theorem fades {m'' : Machine P V σ} (h : m.Beside i m' hand) (hf : m'.Fades m'')
    (hwork : m'.AtWork i hand' loose due) : m.Beside i m'' hand where
  lt := h.lt
  size := h.size.trans hf.size.ge
  abides j := (h.abides j).trans (hf.routine j).abides
  own := by
    refine Eq.trans ?_ h.own
    have hi := hf.routine i
    generalize m''.routine i = r at hi ⊢
    cases hi with
    | kept n _ => rfl
    | closed hstatus hs => exact absurd hstatus (hwork.not_suspending hs)
  stack j hj := (hf.routine j).stack.trans (h.stack j hj)
  rests j hj hlt := (h.rests j hj hlt).trans (h.abides j) (.of_fades (hf.routine j))
  fresh j hj := by
    have hold := h.fresh j hj
    cases Routine.Rests.of_fades (hf.routine j) with
    | spared _ hcontrol => rwa [Routine.isIdle, hcontrol]
    | closed hs =>
      rw [(h.abides j).isSome, routine_of_size_le hj] at hs
      cases hs
  carried y hy := by
    have hkept : m''.kept = m'.kept := by rw [kept, hf.conts, kept]
    rw [hkept] at hy
    exact h.carried y hy

/-- Who is ready does not matter, nor what is registered. -/
theorem congr {m'' : Machine P V σ} (h : m.Beside i m' hand)
    (hroutines : m''.routines = m'.routines) (hconts : m''.conts = m'.conts) :
    m.Beside i m'' hand := by
  have hr : ∀ j, m''.routine j = m'.routine j := fun j => by rw [routine, hroutines, routine]
  have hkept : m''.kept = m'.kept := by rw [kept, hconts, kept]
  exact
    { lt := h.lt
      size := by rw [hroutines]; exact h.size
      abides := fun j => by rw [hr]; exact h.abides j
      own := by rw [hr]; exact h.own
      stack := fun j hj => by rw [hr]; exact h.stack j hj
      rests := fun j hj hlt => by rw [hr]; exact h.rests j hj hlt
      fresh := fun j hj => by rw [hr]; exact h.fresh j hj
      carried := fun y hy => by rw [hkept] at hy; exact h.carried y hy }

/-- A routine is made that has not begun. -/
theorem grow {x : Routine P V σ} (h : m.Beside i m' hand) (hscope : x.scope = none)
    (hstack : x.stack = []) (hidle : x.isIdle = true) : m.Beside i (m'.grow x) hand := by
  have hnext : ∀ j, j.val < m.routines.size → j ≠ m'.next := by
    rintro j hj rfl
    exact absurd h.size (Nat.not_le.2 hj)
  have hr := m'.routine_grow x
  have hi : (m'.grow x).routine i = m'.routine i := by rw [hr, if_neg (hnext i h.lt)]
  constructor
  case lt => exact h.lt
  case size =>
    refine h.size.trans ?_
    simp [Machine.grow]
  case abides =>
    intro j
    rw [hr]
    split
    · next hj =>
      have hold := h.abides j
      rw [hj, m'.routine_next] at hold
      exact hj ▸ hold.trans (.of_eq (r := .absent) hscope)
    · exact h.abides j
  case own => rw [hi]; exact h.own
  case stack =>
    intro j hj
    rw [hr]
    split
    · next hjn =>
      have hold := h.stack j hj
      rw [hjn, m'.routine_next] at hold
      rw [hstack, hjn]
      exact hold
    · exact h.stack j hj
  case rests =>
    intro j hj hlt
    rw [hr, if_neg (hnext j hlt)]
    exact h.rests j hj hlt
  case fresh =>
    intro j hj
    rw [hr]
    split
    · exact hidle
    · exact h.fresh j hj
  case carried => exact h.carried

/-- Places for continuations are filled and emptied. -/
theorem setConts {cs : Array (Option Cont)} (h : m.Beside i m' hand)
    (hcarried : ∀ y, y ∈ ({ m' with conts := cs } : Machine P V σ).kept ∨ y ∈ hand' →
      y ∈ m'.kept ∨ y ∈ hand) :
    m.Beside i { m' with conts := cs } hand' :=
  ⟨h.lt, h.size, h.abides, h.own, h.stack, h.rests, h.fresh,
    fun y hy => h.carried y (hcarried y hy)⟩

theorem takeCont (h : m.Beside i m' hand) (k : ContId) :
    m.Beside i (m'.takeCont k).2 (m'.keptAt k ++ hand) := by
  refine h.setConts ?_
  have hcount : ∀ y, m'.kept.count y = (m'.takeCont k).2.kept.count y + (m'.keptAt k).count y :=
    fun y => countP_kept_takeCont m' k _
  intro y hy
  have hc := hcount y
  simp only [List.mem_append] at hy
  rcases hy with hy | hy | hy
  · have hpos : 0 < (m'.takeCont k).2.kept.count y := List.count_pos_iff.2 hy
    exact .inl (List.count_pos_iff.1 (by omega))
  · have hpos : 0 < (m'.keptAt k).count y := List.count_pos_iff.2 hy
    exact .inl (List.count_pos_iff.1 (by omega))
  · exact .inr hy

theorem keepCont {k : Cont} (h : m.Beside i m' (k.keys ++ hand)) :
    m.Beside i (m'.keepCont k).2 hand := by
  refine h.setConts ?_
  intro y hy
  change y ∈ (m'.keepCont k).2.kept ∨ y ∈ hand at hy
  simp only [kept_keepCont, List.mem_append] at hy ⊢
  tauto

/-- A routine that was made has no scope. -/
theorem scope_eq_none (h : m.Beside i m' hand) {z : RoutineId} (hz : m.routines.size ≤ z.val) :
    (m'.routine z).scope = none := by
  refine (h.abides z).eq_none ?_
  rw [routine_of_size_le hz]
  rfl

/-! ## The end of a step -/

/-- What the others carry they carried before. -/
theorem carriedBy (h : m.Beside i m' hand) {j : RoutineId} (hj : j ≠ i)
    (hy : m'.CarriedBy j y) : m.CarriedBy j y := by
  rcases Nat.lt_or_ge j.val m.routines.size with hlt | hge
  case inr =>
    obtain ⟨hkeys, hneed, -⟩ := Routine.of_isIdle (h.fresh j hge)
    rw [CarriedBy, Routine.pending?, hkeys, hneed] at hy
    rcases hy with hy | hy <;> cases hy
  have hrests := h.rests j hj hlt
  rcases hy with hy | hy
  · rcases hrests.keys with heq | heq
    · exact .inl (heq ▸ hy)
    · rw [heq] at hy
      cases hy
  · refine .inr ?_
    unfold Routine.pending? at hy ⊢
    rw [h.stack j hj] at hy
    rcases hrests.need? with heq | heq
    · rwa [heq] at hy
    · rw [heq] at hy
      cases hy

/-- What the others offer they offered before. -/
theorem offers (h : m.Beside i m' hand) {j : RoutineId} (hj : j ≠ i) (hy : m'.Offers j y) :
    m.Offers j y := by
  rcases Nat.lt_or_ge j.val m.routines.size with hlt | hge
  · exact hy.of_rests (h.rests j hj hlt) (h.stack j hj)
  · refine absurd hy (not_offers fun x hx => ?_)
    have hidle := h.fresh j hge
    rw [Routine.isIdle, hx] at hidle
    cases hidle

/-- A step ends. Apart from the routine that makes it, it concerns one other routine, or a new one. -/
theorem endStep {m'' : Machine P V σ} {l : RoutineId} (h : m.Beside i m' hand)
    (hsize : m'.routines.size ≤ m''.routines.size) (hkept : m''.kept = m'.kept)
    (hothers : ∀ j, j ≠ i → j ≠ l → m''.routine j = m'.routine j)
    (hown : (m'.routine i).Abides (m''.routine i))
    (hmoves : (m.routine i).scope.isSome → Moves i (m.routine i) (m''.routine i))
    (hcarries : ∀ y, m''.CarriedBy i y → m.CarriedBy i y)
    (hoffers : ∀ y, m''.Offers i y → m.Offers i y)
    (hdone : ∀ b z, (m''.routine i).control = .returning (.value (.signal (.done b))) →
      awaitedScope? (m''.routine i).stack = some z →
        (m.routine i).control = .returning (.value (.signal (.done b))) ∧
          awaitedScope? (m.routine i).stack = some z)
    (hpeer : l ≠ i → l.val < m.routines.size → (m'.routine l).Abides (m''.routine l) ∧
      (m''.routine l).stack = (m'.routine l).stack ∧ m.Touches i l (m''.routine l))
    (hnew : m.routines.size ≤ l.val → (m''.routine l).scope.isSome →
      (m''.routine l).status = .running ∧ ∀ t, (m''.routine l).into? = some t → m.Carries ⟨.result, t⟩)
    (hpeerCarries : l ≠ i → ∀ y, m''.CarriedBy l y → m.Carries y ∨ y.scope = i)
    (hpeerOffers : l ≠ i → ∀ y, m''.Offers l y → m.Offers l y ∨
      (m''.routine i).control = .reading i ∧ ((∃ l, m.Offers l y) ∨ y.scope = i)) :
    m.Influences i m'' := by
  constructor
  case size => exact h.size.trans hsize
  case own => exact (h.abides i).trans hown
  case moves => exact hmoves
  case abides =>
    intro j hj hlt
    refine (h.abides j).trans ?_
    by_cases hjl : j = l
    · subst hjl
      exact (hpeer hj hlt).1
    · exact .of_eq (by rw [hothers j hj hjl])
  case stack =>
    intro j hj hlt
    refine Eq.trans ?_ (h.stack j hj)
    by_cases hjl : j = l
    · subst hjl
      exact (hpeer hj hlt).2.1
    · rw [hothers j hj hjl]
  case touches =>
    intro j hj hlt
    by_cases hjl : j = l
    · subst hjl
      exact (hpeer hj hlt).2.2
    · rw [hothers j hj hjl]
      exact .rests (h.rests j hj hlt)
  case kept => exact fun y hy => h.carried y (.inl (hkept ▸ hy))
  case carried =>
    intro j y hy
    by_cases hj : j = i
    · subst hj
      exact .inl (.inr ⟨j, hcarries y hy⟩)
    · by_cases hjl : j = l
      · subst hjl
        exact hpeerCarries hj y hy
      · rw [CarriedBy, hothers j hj hjl] at hy
        exact .inl (.inr ⟨j, h.carriedBy hj hy⟩)
  case offered =>
    intro j y hy
    by_cases hj : j = i
    · subst hj
      exact .inl (hoffers y hy)
    · by_cases hjl : j = l
      · subst hjl
        exact hpeerOffers hj y hy
      · rw [Offers, hothers j hj hjl] at hy
        exact .inl (h.offers hj hy)
  case opened =>
    intro z hz hsome
    by_cases hzl : z = l
    · subst hzl
      exact hnew hz hsome
    · have hzi : z ≠ i := by
        rintro rfl
        exact absurd h.lt (Nat.not_lt.2 hz)
      rw [hothers z hzi hzl, h.scope_eq_none hz] at hsome
      cases hsome
  case done => exact hdone

/-- A step ends with something to do for the routine. -/
theorem finish (h : m.Beside i m' hand) (hi : i.val < m'.routines.size) {c : Control P V σ}
    (hc : c ≠ .ended) (hkeys : c.keys = []) (hneed : c.need? = none)
    (hdone : ∀ b z, c = .returning (.value (.signal (.done b))) →
      awaitedScope? (m'.routine i).stack ≠ some z) : m.Influences i (m'.setControl i c) := by
  have hself : (m'.setControl i c).routine i = { m'.routine i with control := c } :=
    routine_update_self hi _
  have hnothing : ∀ y, ¬ (m'.setControl i c).CarriedBy i y := fun y =>
    not_carriedBy (by rw [hself]; exact hkeys) (by rw [hself]; exact hneed)
  refine h.endStep (size_update ..).ge rfl (fun j hj _ => routine_update_of_ne hj.symm _) ?_ ?_
    (fun y hy => absurd hy (hnothing y)) (fun y hy => absurd hy.carriedBy (hnothing y)) ?_
    (fun hne => absurd rfl hne) (fun hge => absurd h.lt (Nat.not_lt.2 hge))
    (fun hne => absurd rfl hne) fun hne => absurd rfl hne
  · rw [hself]
    exact .of_eq rfl
  · intro _
    rw [hself]
    exact .on h.own hc
  · intro b z hb hz
    rw [hself] at hb hz
    exact absurd hz (hdone b z hb)

/-- A step ends with the entering of a scope. -/
theorem enterScope {q : Mark} {b : Boxed V} (h : m.Beside i m' hand)
    (hwork : m'.AtWork i [⟨q, s⟩] [] []) (hfrom : m.MayResume i s) :
    m.Influences i (m'.enterScope i s b) := by
  obtain ⟨scope, hscope, hstatus, hinbox, hout, hcontrol, -, hne⟩ :=
    hwork.suspended (y := ⟨q, s⟩) (by simp)
  simp only at hscope hstatus hinbox hout hcontrol hne
  have hr := routine_enterScope (b := b) hscope hstatus hinbox hout hcontrol hne hwork.lt
  have heq := enterScope_eq (b := b) hscope hstatus hinbox hout hcontrol hne
  generalize m'.enterScope i s b = m'' at hr heq
  have hself : m''.routine i = (m'.routine i).entering s scope.ctx := by rw [hr, if_pos rfl]
  have hs : m''.routine s = (m'.routine s).resumed i b := by
    rw [hr, if_neg hne.symm, if_pos rfl]
  -- Both the routine and the body have nothing to hand on.
  have hnothing : ∀ y, ¬ m''.CarriedBy i y := fun y =>
    not_carriedBy (by rw [hself]; rfl) (by rw [hself]; rfl)
  have hnothing' : ∀ y, ¬ m''.CarriedBy s y := fun y =>
    not_carriedBy (by rw [hs]; rfl) (by rw [hs]; rfl)
  refine h.endStep (l := s) ?_ ?_ ?_ ?_ ?_ (fun y hy => absurd hy (hnothing y))
    (fun y hy => absurd hy.carriedBy (hnothing y)) ?_ ?_ ?_
    (fun _ y hy => absurd hy (hnothing' y)) fun _ y hy => absurd hy.carriedBy (hnothing' y)
  · rw [heq]
    simp [pause, wake]
  · rw [heq]
    rfl
  · intro j hj hjs
    rw [hr, if_neg hj, if_neg hjs]
  · rw [hself]
    exact .of_eq rfl
  · intro _
    rw [hself]
    exact .on h.own fun hc => by cases hc
  · intro b' z hb
    rw [hself] at hb
    cases hb
  · intro _ hlt
    rw [hs]
    refine ⟨.of_eq rfl, rfl, .resumed b ?_ hfrom ?_ rfl rfl⟩
    · rw [← (h.abides s).isSome, hscope]
      rfl
    · exact (h.rests s hne.symm hlt).status_of_suspending hstatus
  · intro hge
    rw [h.scope_eq_none hge] at hscope
    cases hscope

/-- A step ends with the opening of a scope, which takes over what is in hand. -/
theorem openScope {scope : Scope P} {start : Start P V} (h : m.Beside i m' hand)
    (hi : i.val < m'.routines.size) (h0 : scope.holders = 0)
    (hkeys : ∀ y, y ∈ (Control.starting start (.boxed .start) : Control P V σ).keys ++
      scope.keysWith 1 → y ∈ hand) : m.Influences i (m'.openScope i scope start) := by
  have hne : i ≠ m'.next := by
    rintro rfl
    exact Nat.lt_irrefl _ hi
  have hr := routine_openScope start h0 hi
  have heq := openScope_eq start h0 hi
  generalize m'.openScope i scope start = m'' at hr heq
  have hself : m''.routine i = (m'.routine i).entering m'.next scope.ctx := by rw [hr, if_pos rfl]
  have hnew : m''.routine m'.next = .opened m'.next i scope start := by
    rw [hr, if_neg hne.symm, if_pos rfl]
  have hnothing : ∀ y, ¬ m''.CarriedBy i y := fun y =>
    not_carriedBy (by rw [hself]; rfl) (by rw [hself]; rfl)
  have htaken : ∀ y ∈ (Control.starting start (.boxed .start) : Control P V σ).keys ++
      scope.keysWith 1, m.Carries y := fun y hy => h.carried y (.inr (hkeys y hy))
  refine h.endStep (l := m'.next) ?_ ?_ ?_ ?_ ?_ (fun y hy => absurd hy (hnothing y))
    (fun y hy => absurd hy.carriedBy (hnothing y)) ?_ ?_ ?_ ?_ ?_
  · rw [heq]
    simp [pause, wake, Machine.grow]
  · rw [heq]
    rfl
  · intro j hj hjs
    rw [hr, if_neg hj, if_neg hjs]
  · rw [hself]
    exact .of_eq rfl
  · intro _
    rw [hself]
    exact .on h.own fun hc => by cases hc
  · intro b' z hb
    rw [hself] at hb
    cases hb
  · exact fun _ hlt => absurd h.size (Nat.not_le.2 hlt)
  · intro _ _
    rw [hnew]
    refine ⟨rfl, fun t ht => htaken _ (List.mem_append_right _ ?_)⟩
    have hfin : scope.finish.outer? = some t := by
      simpa [Routine.into?, Routine.opened] using ht
    simp [Scope.keysWith, hfin]
  · intro _ y hy
    rw [CarriedBy, Routine.pending?, hnew] at hy
    rcases hy with hy | hy
    · exact .inl (htaken y (List.mem_append_left _ hy))
    · cases hy
  · intro _ y hy
    refine absurd hy (not_offers fun x hx => ?_)
    rw [hnew] at hx
    cases hx

/-- The signal of a body brings the way to resume the body itself. -/
theorem scope_of_pending_told {r : Routine P V σ} {x : Signal V} {c : ContextId}
    {st : List (Frame P V σ)} (hst : r.stack = .registered (.context c) i :: st)
    (hy : (r.told (.value (.signal x))).pending? = some y) : y.scope = i := by
  cases hneed : x.need? with
  | none => simp [Routine.pending?, Routine.told, Control.need?, Outcome.signal?, hneed] at hy
  | some q =>
    have heq : y = ⟨q, i⟩ := by
      simpa [Routine.pending?, Routine.told, Control.need?, Outcome.signal?, hneed, hst,
        awaitedScope?, eq_comm] using hy
    rw [heq]

/-- A step ends with the suspending of the body, or with a failure if nobody listens. -/
theorem suspend {x : Signal V} (h : m.Beside i m' x.keys) (hwork : m'.AtWork i x.keys [] [])
    (hx : ∀ y ∈ x.keys, ∃ l, m.Offers l y) (ctx : Context) :
    m.Influences i (m'.suspend i ctx.place (.signal x)) := by
  by_cases hentry : i ∈ (m'.registry ctx.place).items
  · obtain ⟨scope, j, hscope, hplace, hstatus, hinbox, hout, hcontrol, hne, hmain⟩ :=
      hwork.listened hentry
    have hj : j.val < m'.routines.size := lt_of_ne_ended (by simp [hcontrol])
    obtain ⟨-, st, hst, -⟩ := hwork.linked.takesSignals hscope hcontrol
    have hr := routine_suspend (a := .signal x) hmain hentry hstatus hinbox hout hne hwork.lt hj
    have heq := suspend_eq (a := .signal x) hmain hentry hstatus hinbox hout hne hwork.lt
    generalize m'.suspend i ctx.place (.signal x) = m'' at hr heq
    have hself : m''.routine i = (m'.routine i).suspended i := by rw [hr, if_pos rfl]
    have htold : m''.routine j = (m'.routine j).told (.value (.signal x)) := by
      rw [hr, if_neg hne.symm, if_pos rfl]
    have hnothing : ∀ y, ¬ m''.CarriedBy i y := fun y =>
      not_carriedBy (by rw [hself]; rfl) (by rw [hself]; rfl)
    have hjlt : j.val < m.routines.size := by
      by_contra hge
      exact (Routine.of_isIdle (h.fresh j (Nat.le_of_not_lt hge))).2.2 i hcontrol
    have hown := h.own
    simp only [Routine.slots, Prod.mk.injEq] at hown
    refine h.endStep (l := j) ?_ ?_ ?_ ?_ ?_ (fun y hy => absurd hy (hnothing y))
      (fun y hy => absurd hy.carriedBy (hnothing y)) ?_ ?_
      (fun hge => absurd hjlt (Nat.not_lt.2 hge)) ?_ ?_
    · rw [heq]
      simp [pause, wake]
    · rw [heq]
      rfl
    · intro l hl hlj
      rw [hr, if_neg hl, if_neg hlj]
    · rw [hself]
      exact .of_eq rfl
    · intro _
      rw [hself]
      exact .suspended (hown.1.symm.trans hstatus) rfl
    · intro b z hb
      rw [hself] at hb
      cases hb
    · intro _ _
      obtain ⟨hslots, hlistening⟩ := (h.rests j hne.symm hjlt).of_listening hcontrol
      rw [htold]
      refine ⟨.of_eq rfl, rfl, .told _ ?_ hlistening hslots rfl⟩
      rw [← (h.abides i).isSome, hscope]
      rfl
    · intro _ y hy
      rw [CarriedBy, htold] at hy
      rcases hy with hy | hy
      · exact .inl (h.carried y (.inr hy))
      · exact .inr (scope_of_pending_told hst hy)
    · intro _ y hy
      refine .inr ⟨by rw [hself]; rfl, ?_⟩
      rw [Offers, htold] at hy
      rcases hy with ⟨x', hx', hy⟩ | hy
      · obtain rfl : x = x' := by simpa [Routine.told] using hx'
        exact .inl (hx y hy)
      · exact .inr (scope_of_pending_told hst hy)
  · rw [suspend_of_notMem hentry]
    obtain ⟨hwork', hf⟩ : (m'.releaseParcel (.signal x)).AtWork i [] [] [] ∧
        m'.Fades (m'.releaseParcel (.signal x)) := AtWork.releaseParcel (by simpa using hwork)
    have hnone : m.Beside i m' [] := h.weaken (by simp)
    exact (hnone.fades hf hwork).finish
      (c := .returning (.failure .noResumePoint)) hwork'.lt (fun hc => by cases hc) rfl rfl (by simp)

end Beside

/-! ## Steps that only take an outcome on -/

/-- A registered resume comes back. -/
theorem Influences.withdraw {o : Outcome V (Parcel V)} {p : Place} {st : List (Frame P V σ)}
    (hi : i.val < m.routines.size) (hc : (m.routine i).control = .returning o)
    (hst : (m.routine i).stack = .registered p s :: st)
    (hawaited : ∀ z, awaitedScope? st = some z → awaitedScope? (m.routine i).stack = some z) :
    m.Influences i (((m.update i fun r => { r with stack := st }).setRegistry p
      ((m.registry p).erase s)).reply i o) := by
  have heq : ((m.update i fun r => { r with stack := st }).setRegistry p
      ((m.registry p).erase s)).reply i o = (m.setRegistry p ((m.registry p).erase s)).update i
        fun r => { r with stack := st, control := .returning o } := by
    rw [reply, setControl, setRegistry_eq_update_comm, update_update]
  rw [heq]
  generalize hm : (m.setRegistry p ((m.registry p).erase s)).update i
    (fun r => { r with stack := st, control := .returning o }) = m'
  have hi' : i.val < (m.setRegistry p ((m.registry p).erase s)).routines.size := by
    rwa [size_setRegistry]
  have hself : m'.routine i = { m.routine i with stack := st, control := .returning o } := by
    rw [← hm, routine_update_self hi', routine_setRegistry]
  have hother : ∀ j, j ≠ i → m'.routine j = m.routine j := by
    intro j hj
    rw [← hm, routine_update_of_ne hj.symm, routine_setRegistry]
  have hsize : m'.routines.size = m.routines.size := by
    rw [← hm, size_update, size_setRegistry]
  have hkept : m'.kept = m.kept := by
    rw [← hm]
    cases p <;> rfl
  -- What is pending stays pending, as no other scope is awaited now.
  have hpending : ∀ y, (m'.routine i).pending? = some y → (m.routine i).pending? = some y := by
    intro y hy
    rw [Routine.pending?, hself] at hy
    rw [Routine.pending?, hc]
    simp only [Option.bind_eq_some_iff, Option.map_eq_some_iff] at hy ⊢
    obtain ⟨q, hq, z, hz, hyz⟩ := hy
    exact ⟨q, hq, z, hawaited z hz, hyz⟩
  have hcontrol : (m'.routine i).control = (m.routine i).control := by rw [hself, hc]
  refine (Beside.start hi [] (by simp)).endStep (l := i) hsize.ge hkept (fun j hj _ => hother j hj)
    ?_ ?_ (fun y => Or.imp (fun hy => hcontrol ▸ hy) (hpending y))
    (fun y => Or.imp (Exists.imp fun _ => And.imp_left fun hx => hcontrol ▸ hx) (hpending y)) ?_
    (fun hne => absurd rfl hne) (fun hge => absurd hi (Nat.not_lt.2 hge))
    (fun hne => absurd rfl hne) fun hne => absurd rfl hne
  · rw [hself]
    exact .of_eq rfl
  · intro _
    rw [hself]
    exact .on rfl fun hc => by cases hc
  · intro b z hb hz
    rw [hself] at hb hz
    exact ⟨hc.trans hb, hawaited z hz⟩

/-- A handled body ends, and a routine may hear of it. -/
theorem Influences.of_ended {o : Outcome V (Parcel V)} {l : RoutineId} (hi : i.val < m.routines.size)
    (hsize : m'.routines.size = m.routines.size) (hconts : m'.conts = m.conts)
    (hended : (m'.routine i).control = .ended)
    (hstatus : (m'.routine i).status = o.ending (m.routine i).status)
    (hscope : (m'.routine i).scope = (m.routine i).scope)
    (hothers : ∀ j, j ≠ i → j ≠ l → m'.routine j = m.routine j)
    (hpeer : l ≠ i → l.val < m.routines.size ∧ (m.routine i).scope.isSome ∧
      (m.routine l).control = .listening i ∧ m'.routine l = (m.routine l).told o ∧
      o.signal?.bind Signal.need? = none) : m.Influences i m' := by
  have hnothing : ∀ y, ¬ m'.CarriedBy i y := fun y =>
    not_carriedBy (by rw [hended]; rfl) (by rw [hended]; rfl)
  have hnothing' : l ≠ i → ∀ y, ¬ m'.CarriedBy l y := by
    intro hne y
    obtain ⟨-, -, -, htold, hneed⟩ := hpeer hne
    refine not_carriedBy ?_ (by rw [htold]; exact hneed)
    rw [htold]
    exact keys_of_need?_eq_none hneed
  have hkept : m'.kept = m.kept := by rw [Machine.kept, hconts, Machine.kept]
  refine (Beside.start hi [] (by simp)).endStep (l := l) hsize.ge hkept hothers (.of_eq hscope)
    (fun _ => .atEnd o hended hstatus) (fun y hy => absurd hy (hnothing y))
    (fun y hy => absurd hy.carriedBy (hnothing y)) ?_ ?_ ?_
    (fun hne y hy => absurd hy (hnothing' hne y))
    fun hne y hy => absurd hy.carriedBy (hnothing' hne y)
  · intro b z hb
    rw [hended] at hb
    cases hb
  · intro hne _
    obtain ⟨-, hsome, hlistening, htold, -⟩ := hpeer hne
    rw [htold]
    exact ⟨.of_eq rfl, rfl, .told o hsome hlistening rfl rfl⟩
  · intro hge _
    have hne : l ≠ i := by
      rintro rfl
      exact absurd hi (Nat.not_lt.2 hge)
    exact absurd (hpeer hne).1 (Nat.not_lt.2 hge)

/-- A handled body ends. -/
theorem Sound.influences_finishHandled {o : Outcome V (Parcel V)} (h : m.Sound)
    (hsome : (m.routine i).scope.isSome) (hc : (m.routine i).control = .returning o)
    (hst : (m.routine i).stack = []) : m.Influences i (m.finish i o) := by
  have hactive : (m.routine i).control.isActive = true := by rw [hc]; rfl
  have hi := lt_of_isActive hactive
  have hjoiners := (h.linked.phase i hsome).alone
  obtain ⟨scope, hscope⟩ := Option.isSome_iff_exists.1 hsome
  have hends : o.Ends (some scope.mark) := by
    have hposture := h.linked.posture i (by simp)
    simpa only [Routine.Posture, hc, hst, Fits, Routine.role, hscope, Option.map_some]
      using hposture
  -- Who listens hears of the end, and nobody else does.
  rcases h.linked.end_cases hsome hactive with ⟨-, j, hout, hcontrol, hne⟩ | ⟨-, hempty⟩
  · have hj : j.val < m.routines.size := lt_of_ne_ended (by simp [hcontrol])
    have hr := routine_finish_awaited (o := o) hjoiners hout hne hi hj
    have heq := finish_awaited (o := o) hjoiners hout hi
    have hself : (m.finish i o).routine i = (m.routine i).heard o := by rw [hr, if_pos rfl]
    refine .of_ended (o := o) (l := j) hi (by rw [heq]; simp [pause, wake]) (by rw [heq]; rfl)
      (by rw [hself]; rfl) (by rw [hself]; rfl) (by rw [hself]; rfl) (fun l hl hlj => ?_) fun _ => ?_
    · rw [hr, if_neg hl, if_neg hlj]
    · refine ⟨hj, hsome, hcontrol, ?_, hends.need?_eq_none⟩
      rw [hr, if_neg hne.symm, if_pos rfl]
  · have hr := routine_finish_empty (o := o) hjoiners hempty hi
    have heq := finish_empty (o := o) hjoiners hempty hi
    have hself : (m.finish i o).routine i = (m.routine i).unheard o := by rw [hr, if_pos rfl]
    refine .of_ended (o := o) (l := i) hi (by rw [heq]; simp [pause]) (by rw [heq]; rfl)
      (by rw [hself]; rfl) (by rw [hself]; rfl) (by rw [hself]; rfl) (fun l hl _ => ?_)
      fun hne => absurd rfl hne
    rw [hr, if_neg hl]

end Machine

end OneShot
