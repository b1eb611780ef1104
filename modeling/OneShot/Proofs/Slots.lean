import OneShot.Proofs.Influence

/-!
# Slots

Coroutines that code has made exchange messages with whoever holds them through their slots. Neither the
slots nor the status of such a coroutine are counted, so messages can come and go while a routine is at
work. Who waits for a message goes on when it comes.

`SoundBut` is the invariant while a routine is at work that has nothing in hand. `Keeps` and `Eases` say
what such an exchange leaves as it was.
-/

namespace OneShot

variable {P V σ : Type}

theorem Listening.ne_registered {role : Option Mark} {st : List (Frame P V σ)}
    (h : Listening role st) (d : ContextId) (s : RoutineId) (st' : List (Frame P V σ)) :
    st ≠ .registered (.context d) s :: st' := by
  rintro rfl
  exact not_settled rfl rfl h

theorem Listening.awaitedScope?_eq_none {role : Option Mark} {st : List (Frame P V σ)}
    (h : Listening role st) : awaitedScope? st = none := by
  match st, h with
  | [], _ => rfl
  | .registered (.registry _) _ :: _, _ => rfl
  | .registered (.context _) _ :: _, h => exact absurd h (not_settled rfl rfl)
  | .canceling _ :: _, _ => rfl
  | .dispatch _ :: _, h => exact absurd h (not_settled rfl rfl)
  | .next _ :: _, _ => rfl
  | .nested _ _ :: _, _ => rfl
  | .holding _ :: _, _ => rfl
  | .owning _ :: _, _ => rfl
  | .performing :: _, _ => rfl
  | .forwarding _ :: _, _ => rfl
  | .handledBody :: _, _ => rfl
  | .rejoining :: _, _ => rfl

/-- What a body sees of an input. -/
def Input.outcome : Input V → Outcome V (Parcel V)
  | .parcel p => .value p
  | .cancel => .failure .canceled

/-- What an input for code can be. -/
def Input.IsPlain : Input V → Prop
  | .parcel a => ∃ v, a = .plain v
  | .cancel => True

namespace Machine

open Control

variable {m m' : Machine P V σ} {w : Option RoutineId} {i j r c : RoutineId}
  {o : Outcome V (Parcel V)} {a : Input V}

/-- The invariant, but for what routine `w` is doing. -/
structure SoundBut (m : Machine P V σ) (w : Option RoutineId) : Prop where
  linked : m.Linked w
  counted : m.Counted w [] []
  reclaimed : m.Reclaimed []

theorem AtWork.soundBut (h : m.AtWork i [] [] []) : m.SoundBut (some i) :=
  ⟨h.linked, h.counted, h.reclaimed⟩

theorem SoundBut.atWork (h : m.SoundBut (some i)) : m.AtWork i [] [] [] :=
  ⟨h.linked, h.counted, h.reclaimed⟩

theorem SoundBut.sound (h : m.SoundBut none) : m.Sound := ⟨h.linked, h.counted, h.reclaimed⟩

theorem update_of_size_le (h : m.routines.size ≤ c.val) (f : Routine P V σ → Routine P V σ) :
    m.update c f = m := by
  have heq : m.routines.modify c.val f = m.routines := by
    apply Array.ext
    · simp
    · intro j hj hj'
      rw [Array.getElem_modify_of_ne (by omega)]
  unfold update
  rw [heq]

theorem update_id (m : Machine P V σ) (c : RoutineId) : m.update c id = m := by
  have heq : m.routines.modify c.val id = m.routines := by
    apply Array.ext
    · simp
    · intro j hj hj'
      rw [Array.getElem_modify]
      split <;> rfl
  unfold update
  rw [heq]

/-- Who waits for an input of a coroutine waits for nothing else. -/
theorem Linked.reader (h : m.Linked w) (hin : (m.routine c).inbox = .awaited r) :
    ((m.routine r).control = .reading c ∨ ∃ s, (m.routine r).control = .fresh s) ∧
      ∀ d, (m.routine d).inbox = .awaited r → d = c := by
  rcases h.inbox c r hin with hr | ⟨rfl, hfresh⟩
  · refine ⟨.inl hr, fun d hd => ?_⟩
    rcases h.inbox d r hd with hr' | ⟨rfl, hfresh⟩
    · exact (Control.reading.inj (hr.symm.trans hr')).symm
    · rw [hr] at hfresh
      cases hfresh
  · have hfresh' : ∃ s, (m.routine r).control = .fresh s := by
      cases hc : (m.routine r).control with
      | fresh s => exact ⟨s, rfl⟩
      | _ => rw [hc] at hfresh; cases hfresh
    refine ⟨.inr hfresh', fun d hd => ?_⟩
    rcases h.inbox d r hd with hr | ⟨rfl, -⟩
    · rw [hr] at hfresh
      cases hfresh
    · rfl

/-- A body that has begun goes on with its input. -/
theorem deliver_of_isActive (h : (m.routine r).control.isActive = true) :
    m.deliver r a = m.reply r a.outcome := by
  unfold deliver
  cases hc : (m.routine r).control with
  | fresh s => rw [hc] at h; cases h
  | _ => cases a <;> rfl

/-- Messages come and go, and everything else about the routines stays. -/
theorem routine_update_spares {f : Routine P V σ → Routine P V σ}
    (hf : ∀ x, (f x).control = x.control ∧ (f x).stack = x.stack ∧ (f x).scope = x.scope)
    (x : RoutineId) : ((m.update c f).routine x).control = (m.routine x).control ∧
      ((m.update c f).routine x).stack = (m.routine x).stack ∧
      ((m.update c f).routine x).scope = (m.routine x).scope := by
  rw [routine_update]
  split
  · exact hf _
  · exact ⟨rfl, rfl, rfl⟩

/-- When an input is taken out, its reader waits for no other one. -/
theorem not_awaited_of_emptied (halone : ∀ d, (m.routine d).inbox = .awaited r → d = c)
    {f : Routine P V σ → Routine P V σ} (hf : ∀ x, (f x).inbox = .empty) (d : RoutineId) :
    ((m.update c f).routine d).inbox ≠ .awaited r := by
  intro hd
  rw [routine_update] at hd
  split at hd
  · rw [hf] at hd
    cases hd
  · next hne =>
    obtain rfl := halone d hd
    have hlt : d.val < m.routines.size := by
      by_contra hge
      rw [routine_of_size_le (Nat.le_of_not_lt hge)] at hd
      cases hd
    exact hne ⟨rfl, hlt⟩

/-! ## What an exchange leaves as it was -/

/-- What messages do that routine `i` exchanges with coroutines that code has made. -/
structure Eases (i : RoutineId) (m m' : Machine P V σ) : Prop where
  size : m'.routines.size = m.routines.size
  conts : m'.conts = m.conts
  scope : ∀ x, (m'.routine x).scope = (m.routine x).scope
  stack : ∀ x, x ≠ i → (m'.routine x).stack = (m.routine x).stack
  slots : ∀ x, (m.routine x).scope.isSome → (m'.routine x).slots = (m.routine x).slots
  control : ∀ x, x ≠ i → (m'.routine x).control = (m.routine x).control ∨
    m.WaitsPlainly x ∧ (m'.routine x).control.IsEased

theorem WaitsPlainly.congr {x : RoutineId} (h : m'.WaitsPlainly x)
    (hcontrol : (m'.routine x).control = (m.routine x).control)
    (hscope : ∀ c, (m'.routine c).scope = (m.routine c).scope) : m.WaitsPlainly x := by
  unfold WaitsPlainly at h ⊢
  rw [hcontrol] at h
  cases hc : (m.routine x).control with
  | reading c => rw [hc] at h; exact (hscope c).symm.trans h
  | listening c => rw [hc] at h; exact (hscope c).symm.trans h
  | joining c a => trivial
  | fresh s => trivial
  | _ => rw [hc] at h; exact h

/-- What is eased waits no more. -/
theorem not_waitsPlainly {x : RoutineId} (h : (m.routine x).control.IsEased) :
    ¬ m.WaitsPlainly x := by
  unfold WaitsPlainly
  cases hc : (m.routine x).control <;> rw [hc] at h <;> first | exact id | exact absurd h id

namespace Eases

theorem refl (m : Machine P V σ) : m.Eases i m :=
  ⟨rfl, rfl, fun _ => rfl, fun _ _ => rfl, fun _ _ => rfl, fun _ _ => .inl rfl⟩

theorem trans {m'' : Machine P V σ} (h : Eases i m m') (h' : Eases i m' m'') :
    Eases i m m'' where
  size := h'.size.trans h.size
  conts := h'.conts.trans h.conts
  scope x := (h'.scope x).trans (h.scope x)
  stack x hx := (h'.stack x hx).trans (h.stack x hx)
  slots x hx := (h'.slots x (by rwa [h.scope])).trans (h.slots x hx)
  control x hx := by
    rcases h'.control x hx with heq | ⟨hw, heased⟩
    · rw [heq]
      exact h.control x hx
    · rcases h.control x hx with heq' | ⟨-, heased'⟩
      · exact .inr ⟨hw.congr heq' h.scope, heased⟩
      · exact absurd hw (not_waitsPlainly heased')

/-- The slots and the status of a coroutine that code has made change. -/
theorem updateSlots (i : RoutineId) (hc : (m.routine c).scope = none)
    {f : Routine P V σ → Routine P V σ}
    (hf : ∀ r, (f r).control = r.control ∧ (f r).stack = r.stack ∧ (f r).scope = r.scope) :
    Eases i m (m.update c f) := by
  have hr : ∀ x, ((m.update c f).routine x).control = (m.routine x).control ∧
      ((m.update c f).routine x).stack = (m.routine x).stack ∧
      ((m.update c f).routine x).scope = (m.routine x).scope := by
    intro x
    rw [routine_update]
    split
    · exact hf _
    · exact ⟨rfl, rfl, rfl⟩
  refine ⟨size_update .., rfl, fun x => (hr x).2.2, fun x _ => (hr x).2.1, fun x hx => ?_,
    fun x _ => .inl (hr x).1⟩
  rw [routine_update_of_ne]
  rintro rfl
  rw [hc] at hx
  cases hx

/-- The routine itself changes what it does. -/
theorem updateSelf {f : Routine P V σ → Routine P V σ}
    (hf : ∀ r, (f r).slots = r.slots ∧ (f r).scope = r.scope) :
    Eases i m (m.update i f) := by
  refine ⟨size_update .., rfl, fun x => ?_, fun x hx => ?_, fun x _ => ?_, fun x hx => .inl ?_⟩
  · rw [routine_update]
    split
    · exact (hf _).2
    · rfl
  · rw [routine_update_of_ne hx.symm]
  · rw [routine_update]
    split
    · exact (hf _).1
    · rfl
  · rw [routine_update_of_ne hx.symm]

theorem pushFrame (f : Frame P V σ) : Eases i m (m.pushFrame i f) :=
  updateSelf fun _ => ⟨rfl, rfl⟩

/-- A routine goes on that waited. -/
theorem setControl (i : RoutineId) {d : Control P V σ} (hw : m.WaitsPlainly r) (hd : d.IsEased) :
    Eases i m (m.setControl r d) := by
  refine ⟨size_update .., rfl, fun x => ?_, fun x _ => ?_, fun x _ => ?_, fun x _ => ?_⟩
  all_goals
    rw [Machine.setControl, routine_update]
    split
  · rfl
  · rfl
  · rfl
  · rfl
  · rfl
  · rfl
  · next hx =>
    obtain ⟨rfl, -⟩ := hx
    exact .inr ⟨hw, hd⟩
  · exact .inl rfl

/-- Who is ready does not matter, nor what is registered. -/
theorem congr {m'' : Machine P V σ} (h : Eases i m m') (hroutines : m''.routines = m'.routines)
    (hconts : m''.conts = m'.conts) : Eases i m m'' := by
  have hr : ∀ x, m''.routine x = m'.routine x := fun x => by rw [routine, hroutines, routine]
  refine ⟨by rw [hroutines, h.size], hconts.trans h.conts, fun x => ?_, fun x hx => ?_,
    fun x hx => ?_, fun x hx => ?_⟩
  · rw [hr, h.scope]
  · rw [hr, h.stack x hx]
  · rw [hr, h.slots x hx]
  · rw [hr]
    exact h.control x hx

/-- A reader that has got an input goes on, and a body that never started starts or ends. -/
theorem deliver (i : RoutineId) (ha : a.IsPlain)
    (hr : (∃ c, (m.routine r).control = .reading c ∧ (m.routine c).scope = none) ∨
      ∃ p, (m.routine r).control = .fresh (.body p)) : Eases i m (m.deliver r a) := by
  have hw : m.WaitsPlainly r := by
    unfold WaitsPlainly
    rcases hr with ⟨c, hc, hscope⟩ | ⟨p, hp⟩
    · rwa [hc]
    · rw [hp]
      trivial
  rcases hr with ⟨c, hc, -⟩ | ⟨p, hp⟩
  · cases a with
    | parcel b =>
      obtain ⟨v, rfl⟩ := ha
      simp only [Machine.deliver, hc]
      exact setControl i hw (d := .returning (.value (.plain v))) trivial
    | cancel =>
      simp only [Machine.deliver, hc]
      exact setControl i hw (d := .returning (.failure .canceled)) trivial
  · cases a with
    | parcel b =>
      simp only [Machine.deliver, hp]
      exact setControl i hw (d := .starting (.body p) b) trivial
    | cancel =>
      simp only [Machine.deliver, hp]
      exact setControl i hw (d := .ended) trivial

end Eases

/-- Stacks and scopes are as they were. -/
structure Keeps (m m' : Machine P V σ) : Prop where
  size : m'.routines.size = m.routines.size
  stack : ∀ x, (m'.routine x).stack = (m.routine x).stack
  scope : ∀ x, (m'.routine x).scope = (m.routine x).scope

namespace Keeps

theorem refl (m : Machine P V σ) : m.Keeps m := ⟨rfl, fun _ => rfl, fun _ => rfl⟩

theorem trans {m'' : Machine P V σ} (h : m.Keeps m') (h' : m'.Keeps m'') : m.Keeps m'' where
  size := h'.size.trans h.size
  stack x := (h'.stack x).trans (h.stack x)
  scope x := (h'.scope x).trans (h.scope x)

theorem update (m : Machine P V σ) (c : RoutineId) {f : Routine P V σ → Routine P V σ}
    (hf : ∀ r, (f r).stack = r.stack ∧ (f r).scope = r.scope) : m.Keeps (m.update c f) where
  size := size_update m c f
  stack x := by
    rw [routine_update]
    split
    · exact (hf _).1
    · rfl
  scope x := by
    rw [routine_update]
    split
    · exact (hf _).2
    · rfl

theorem role (h : m.Keeps m') (x : RoutineId) : (m'.routine x).role = (m.routine x).role := by
  rw [Routine.role, h.scope x]
  rfl

/-- Waking a routine changes only who is ready. -/
theorem wake (h : m.Keeps m') (x : RoutineId) : m.Keeps (m'.wake x) := ⟨h.size, h.stack, h.scope⟩

theorem deliver (m : Machine P V σ) (r : RoutineId) (a : Input V) : m.Keeps (m.deliver r a) := by
  unfold Machine.deliver
  split <;> exact update m r fun _ => ⟨rfl, rfl⟩

theorem hear (m : Machine P V σ) (j c : RoutineId) (o : Outcome V (Parcel V)) :
    m.Keeps (m.hear j c o) := by
  unfold Machine.hear
  split
  · exact (update m c (f := fun r => { r with status := .panicked }) fun _ => ⟨rfl, rfl⟩).trans
      (update _ j fun _ => ⟨rfl, rfl⟩)
  · exact update m j fun _ => ⟨rfl, rfl⟩

theorem sendInput (m : Machine P V σ) (c : RoutineId) (a : Input V) :
    m.Keeps (m.sendInput c a) := by
  unfold Machine.sendInput
  split
  · exact (update m c (f := fun r => { r with inbox := .empty }) fun _ => ⟨rfl, rfl⟩).trans
      ((deliver _ _ a).wake _)
  · exact update m c fun _ => ⟨rfl, rfl⟩
  · exact refl m

theorem sendOutput (m : Machine P V σ) (c : RoutineId) (o : Outcome V (Parcel V)) :
    m.Keeps (m.sendOutput c o) := by
  unfold Machine.sendOutput
  split
  · exact (update m c (f := fun r => { r with outbox := .empty }) fun _ => ⟨rfl, rfl⟩).trans
      ((hear _ _ c o).wake _)
  · exact update m c fun _ => ⟨rfl, rfl⟩
  · exact refl m

end Keeps

/-! ## Exchanges -/

namespace SoundBut

/-- The slots and the status of a coroutine that code has made change. -/
theorem updateSlots (h : m.SoundBut w) (hc : (m.routine c).scope = none)
    {f : Routine P V σ → Routine P V σ}
    (hcontrol : (f (m.routine c)).control = (m.routine c).control)
    (hstack : (f (m.routine c)).stack = (m.routine c).stack)
    (hscope : (f (m.routine c)).scope = (m.routine c).scope)
    (hin : ∀ r, (f (m.routine c)).inbox = .awaited r → (m.routine c).inbox = .awaited r)
    (hout : ∀ j, (f (m.routine c)).outbox = .awaited j → (m.routine c).outbox = .awaited j)
    (hfullIn : ∀ a, (f (m.routine c)).inbox = .full (.parcel a) → ∃ v, a = .plain v)
    (hfullOut : ∀ o, (f (m.routine c)).outbox = .full o → o.IsPlain) :
    (m.update c f).SoundBut w := by
  rcases Nat.lt_or_ge c.val m.routines.size with hlt | hge
  · refine ⟨h.linked.updateSlots hc hcontrol hstack hscope hin hout hfullIn hfullOut,
      h.counted.sameRefs hlt hstack hscope (fun _ => ⟨by rw [hcontrol], by rw [hcontrol],
        Routine.entries_congr hstack (by rw [hcontrol])⟩) ?_, ?_⟩
    · rintro y rfl - ⟨hsome, -⟩
      rw [hc] at hsome
      cases hsome
    · intro t scope ht hz hdue
      have hold := h.reclaimed t scope
      rw [routine_update_ite hlt] at ht ⊢
      grind
  · rwa [update_of_size_le hge]

/-- A routine that waits for nothing to do with a scope goes on, or ends. -/
theorem awaken (h : m.SoundBut w) (hw : w ≠ some r) {d : Control P V σ}
    (hlt : r.val < m.routines.size)
    (hd : d.isActive = true ∨ d = .ended ∧ (m.routine r).scope = none)
    (hbegun : (m.routine r).scope.isSome → (m.routine r).control.isUnderWay r = true)
    (hin : ∀ c, (m.routine c).inbox ≠ .awaited r) (hout : ∀ c, (m.routine c).outbox ≠ .awaited r)
    (hp : Routine.Posture { m.routine r with control := d })
    (hkeys : d.keys = [] ∧ (m.routine r).control.keys = [])
    (hneed : d.need? = none ∧ (m.routine r).control.need? = none)
    (hawaited : awaitedScope? (m.routine r).stack = none) :
    ((m.setControl r d).wake r).SoundBut w := by
  refine ⟨h.linked.awaken hw hlt hd hbegun hin hout hp (by simp [hawaited]), ?_, ?_⟩
  · refine (h.counted.sameRefs hlt rfl rfl (fun _ => ⟨?_, ?_, ?_⟩) ?_).setReady _
    · rw [hkeys.2]
      exact hkeys.1
    · rw [hneed.2]
      exact hneed.1
    · intro c t
      rw [Routine.entries_eq_zero_of_awaitedScope? hawaited]
      exact Routine.entries_eq_zero_of_awaitedScope? (r := { m.routine r with control := d })
        hawaited c t
    · rintro y rfl - hw
      unfold Waits at hw ⊢
      rwa [routine_update_self hlt]
  · intro t scope ht hz hdue
    have hold := h.reclaimed t scope
    rw [routine_wake, setControl, routine_update_ite hlt] at ht ⊢
    grind

/-- A reader that has got an input goes on, and a body that never started starts or ends. -/
theorem deliver (h : m.SoundBut w) (ha : a.IsPlain)
    (hr : (∃ c, (m.routine r).control = .reading c ∧ (m.routine c).scope = none) ∨
      ∃ s, (m.routine r).control = .fresh s)
    (hin : ∀ c, (m.routine c).inbox ≠ .awaited r) :
    ((m.deliver r a).wake r).SoundBut w := by
  have hidle : (m.routine r).control.isActive = false := by
    rcases hr with ⟨c, hc, -⟩ | ⟨s, hs⟩
    · rw [hc]; rfl
    · rw [hs]; rfl
  have hw : w ≠ some r := by
    rintro rfl
    have hactive := h.linked.working r rfl
    rw [hidle] at hactive
    cases hactive
  have hlt : r.val < m.routines.size := by
    refine lt_of_ne_ended ?_
    rcases hr with ⟨c, hc, -⟩ | ⟨s, hs⟩
    · simp [hc]
    · simp [hs]
  have hout : ∀ c, (m.routine c).outbox ≠ .awaited r := by
    intro c hc
    have hlisten := h.linked.outbox c r hc
    rcases hr with ⟨d, hd, -⟩ | ⟨s, hs⟩
    · cases hd.symm.trans hlisten
    · cases hs.symm.trans hlisten
  have hkeys : (m.routine r).control.keys = [] ∧ (m.routine r).control.need? = none := by
    rcases hr with ⟨c, hc, -⟩ | ⟨s, hs⟩
    · rw [hc]; exact ⟨rfl, rfl⟩
    · rw [hs]; exact ⟨rfl, rfl⟩
  rcases hr with ⟨c, hc, hscope⟩ | ⟨s, hs⟩
  · have hsettled : Settled (m.routine r).role (m.routine r).stack := by
      have hl := h.linked.reading r c hc
      rwa [if_neg (by simp [hscope])] at hl
    have hbegun : (m.routine r).scope.isSome → (m.routine r).control.isUnderWay r = true := by
      intro hsome
      rw [hc]
      simp only [isUnderWay, bne_iff_ne]
      rintro rfl
      rw [hscope] at hsome
      cases hsome
    have hgo : ∀ o : Outcome V (Parcel V), o.IsPlain → o.signal? = none →
        ((m.setControl r (.returning o)).wake r).SoundBut w := fun o ho hsig =>
      h.awaken hw hlt (.inl rfl) hbegun hin hout (hsettled.fits ho)
        ⟨keys_of_need?_eq_none (by rw [hsig]; rfl), hkeys.1⟩
        ⟨by simp [Control.need?, hsig], hkeys.2⟩ (awaitedScope?_eq_none hsettled)
    cases a with
    | parcel b =>
      obtain ⟨v, rfl⟩ := ha
      simp only [Machine.deliver, hc]
      exact hgo _ trivial rfl
    | cancel =>
      simp only [Machine.deliver, hc]
      exact hgo _ trivial rfl
  · have hposture := h.linked.posture r hw
    simp only [Routine.Posture, hs] at hposture
    obtain ⟨hstack, hscope, p, rfl⟩ := hposture
    have hbegun : (m.routine r).scope.isSome → (m.routine r).control.isUnderWay r = true := by
      simp [hscope]
    cases a with
    | parcel b =>
      simp only [Machine.deliver, hs]
      refine h.awaken hw hlt (.inl rfl) hbegun hin hout ⟨hstack, ?_, trivial⟩ ⟨rfl, hkeys.1⟩
        ⟨rfl, hkeys.2⟩ (by rw [hstack]; rfl)
      simp [Start.role, Routine.role, hscope]
    | cancel =>
      simp only [Machine.deliver, hs]
      exact h.awaken hw hlt (.inr ⟨rfl, hscope⟩) hbegun hin hout hstack ⟨rfl, hkeys.1⟩
        ⟨rfl, hkeys.2⟩ (by rw [hstack]; rfl)

/-- The reader of a coroutine takes an input. -/
theorem giveInput (h : m.SoundBut w) (i : RoutineId) (hc : (m.routine c).scope = none)
    (ha : a.IsPlain) (hin : (m.routine c).inbox = .awaited r)
    {f : Routine P V σ → Routine P V σ}
    (hf : ∀ x, (f x).control = x.control ∧ (f x).stack = x.stack ∧ (f x).scope = x.scope ∧
      (f x).inbox = .empty ∧ (f x).outbox = x.outbox) :
    (((m.update c f).deliver r a).wake r).SoundBut w ∧
      Eases i m (((m.update c f).deliver r a).wake r) := by
  have hslots := h.linked.slots c hc
  obtain ⟨hr, halone⟩ := h.linked.reader hin
  have hsame := routine_update_spares (m := m) (c := c) fun x => ⟨(hf x).1, (hf x).2.1, (hf x).2.2.1⟩
  have h' : (m.update c f).SoundBut w := by
    refine h.updateSlots hc (hf _).1 (hf _).2.1 (hf _).2.2.1 ?_ ?_ ?_ ?_
    · intro x hx
      rw [(hf _).2.2.2.1] at hx
      cases hx
    · intro x hx
      rwa [(hf _).2.2.2.2] at hx
    · intro b hb
      rw [(hf _).2.2.2.1] at hb
      cases hb
    · intro b hb
      rw [(hf _).2.2.2.2] at hb
      exact hslots.2 b hb
  have hreads : (∃ d, ((m.update c f).routine r).control = .reading d ∧
        ((m.update c f).routine d).scope = none) ∨
      ∃ s, ((m.update c f).routine r).control = .fresh s := by
    rcases hr with hr | ⟨s, hs⟩
    · exact .inl ⟨c, (hsame r).1.trans hr, (hsame c).2.2.trans hc⟩
    · exact .inr ⟨s, (hsame r).1.trans hs⟩
  refine ⟨h'.deliver ha hreads (not_awaited_of_emptied halone fun x => (hf x).2.2.2.1),
    (Eases.updateSlots i hc fun x => ⟨(hf x).1, (hf x).2.1, (hf x).2.2.1⟩).trans
      ((Eases.deliver i ha ?_).congr rfl rfl)⟩
  rcases hreads with hd | ⟨s, hs⟩
  · exact .inl hd
  · have hw : w ≠ some r := by
      rintro rfl
      have hactive := h'.linked.working r rfl
      rw [hs] at hactive
      cases hactive
    have hposture := h'.linked.posture r hw
    simp only [Routine.Posture, hs] at hposture
    obtain ⟨-, -, p, rfl⟩ := hposture
    exact .inr ⟨p, hs⟩

/-- An input is sent to a coroutine that code has made. -/
theorem sendInput (h : m.SoundBut w) (i : RoutineId) (hc : (m.routine c).scope = none)
    (ha : a.IsPlain) : (m.sendInput c a).SoundBut w ∧ Eases i m (m.sendInput c a) := by
  have hslots := h.linked.slots c hc
  unfold Machine.sendInput
  split
  · next r hin => exact h.giveInput i hc ha hin fun x => ⟨rfl, rfl, rfl, rfl, rfl⟩
  · refine ⟨h.updateSlots hc rfl rfl rfl (by simp) (fun _ => id) ?_ hslots.2,
      .updateSlots i hc fun _ => ⟨rfl, rfl, rfl⟩⟩
    intro b hb
    simp only [Slot.full.injEq] at hb
    subst hb
    exact ha
  · exact ⟨h, .refl m⟩

/-- The listener to a coroutine takes an output. -/
theorem giveOutput (h : m.SoundBut w) (i : RoutineId) (hc : (m.routine c).scope = none)
    (ho : o.IsPlain) (hout : (m.routine c).outbox = .awaited j)
    {f : Routine P V σ → Routine P V σ}
    (hf : ∀ x, (f x).control = x.control ∧ (f x).stack = x.stack ∧ (f x).scope = x.scope ∧
      (f x).inbox = x.inbox ∧ (f x).outbox = .empty) :
    (((m.update c f).reply j o).wake j).SoundBut w ∧
      Eases i m (((m.update c f).reply j o).wake j) := by
  have hslots := h.linked.slots c hc
  have hcontrol := h.linked.outbox c j hout
  have hlistens := h.linked.listening j c hcontrol
  simp only [Listens, hc] at hlistens
  have hw : w ≠ some j := by
    rintro rfl
    exact ne_listening_of_isActive (h.linked.working j rfl) c hcontrol
  have h' : (m.update c f).SoundBut w := by
    refine h.updateSlots hc (hf _).1 (hf _).2.1 (hf _).2.2.1 ?_ ?_ ?_ ?_
    · intro r hr
      rwa [(hf _).2.2.2.1] at hr
    · intro r hr
      rw [(hf _).2.2.2.2] at hr
      cases hr
    · intro b hb
      rw [(hf _).2.2.2.1] at hb
      exact hslots.1 b hb
    · intro b hb
      rw [(hf _).2.2.2.2] at hb
      cases hb
  have hsame := routine_update_spares (m := m) (c := c) fun x => ⟨(hf x).1, (hf x).2.1, (hf x).2.2.1⟩
  have hlisten' : Listening ((m.update c f).routine j).role ((m.update c f).routine j).stack := by
    rwa [Routine.role, (hsame j).2.2, (hsame j).2.1]
  have hneed : o.signal? = none := ho.signal?_eq_none
  have hwaits : (m.update c f).WaitsPlainly j := by
    unfold WaitsPlainly
    rw [(hsame j).1, hcontrol]
    exact (hsame c).2.2.trans hc
  refine ⟨?_, (Eases.updateSlots i hc fun x => ⟨(hf x).1, (hf x).2.1, (hf x).2.2.1⟩).trans
    ((Eases.setControl i hwaits (d := .returning o) ho).congr rfl rfl)⟩
  have hlt : j.val < (m.update c f).routines.size := by
    simpa using lt_of_ne_ended (m := m) (by simp [hcontrol])
  refine h'.awaken hw hlt (.inl rfl) ?_ ?_ ?_ (hlisten'.fits ho) ?_ ?_
    hlisten'.awaitedScope?_eq_none
  · intro _
    rw [(hsame j).1, hcontrol]
    rfl
  · -- A listener reads nothing.
    intro d hd
    have hd' : (m.routine d).inbox = .awaited j := by
      rw [routine_update] at hd
      split at hd
      · rwa [(hf _).2.2.2.1] at hd
      · exact hd
    rcases (h.linked.reader hd').1 with hr | ⟨s, hs⟩
    · cases hcontrol.symm.trans hr
    · cases hcontrol.symm.trans hs
  · -- It listens to this coroutine only, whose outbox is empty now.
    intro d hd
    rw [routine_update] at hd
    split at hd
    · rw [(hf _).2.2.2.2] at hd
      cases hd
    · next hne =>
      obtain rfl : c = d :=
        Control.listening.inj (hcontrol.symm.trans (h.linked.outbox d j hd))
      exact hne ⟨rfl, h.linked.present j c (.inl hcontrol)⟩
  · rw [(hsame j).1, hcontrol]
    exact ⟨keys_of_need?_eq_none (by rw [hneed]; rfl), rfl⟩
  · rw [(hsame j).1, hcontrol]
    exact ⟨by simp [Control.need?, hneed], rfl⟩

/-- A listener to a coroutine that code has made hears an outcome. -/
theorem sendOutput (h : m.SoundBut w) (i : RoutineId) (hc : (m.routine c).scope = none)
    (ho : o.IsPlain) : (m.sendOutput c o).SoundBut w ∧ Eases i m (m.sendOutput c o) := by
  have hslots := h.linked.slots c hc
  unfold Machine.sendOutput
  split
  · next j hout =>
    -- The status of a coroutine that panicked changes as well.
    cases o with
    | panic p =>
      simp only [hear, setStatus, update_update]
      exact h.giveOutput i hc ho hout fun r => ⟨rfl, rfl, rfl, rfl, rfl⟩
    | value b => exact h.giveOutput i hc ho hout fun r => ⟨rfl, rfl, rfl, rfl, rfl⟩
    | failure f => exact h.giveOutput i hc ho hout fun r => ⟨rfl, rfl, rfl, rfl, rfl⟩
  · refine ⟨h.updateSlots hc rfl rfl rfl (fun _ => id) (by simp) hslots.1 ?_,
      .updateSlots i hc fun _ => ⟨rfl, rfl, rfl⟩⟩
    intro b hb
    simp only [Slot.full.injEq] at hb
    subst hb
    exact ho
  · exact ⟨h, .refl m⟩

/-- A coroutine that code has made is given up. -/
theorem close (h : m.SoundBut w) (i : RoutineId) (hc : (m.routine c).scope = none) :
    (m.close c).2.SoundBut w ∧ m.Keeps (m.close c).2 ∧ Eases i m (m.close c).2 := by
  have hslots := h.linked.slots c hc
  unfold Machine.close
  split
  · next r hin =>
    obtain ⟨hsound, heases⟩ := h.giveInput (a := .cancel) i hc trivial hin
      (f := fun x => { x with status := .canceled, inbox := .empty })
      fun x => ⟨rfl, rfl, rfl, rfl, rfl⟩
    have hk : m.Keeps (m.update c fun x => { x with status := .canceled, inbox := .empty }) :=
      Keeps.update m c fun _ => ⟨rfl, rfl⟩
    exact ⟨hsound, hk.trans ((Keeps.deliver _ r .cancel).wake r), heases⟩
  · dsimp only
    split
    · exact ⟨h.updateSlots hc rfl rfl rfl (fun _ => id) (fun _ => id) hslots.1 hslots.2,
        Keeps.update m c fun _ => ⟨rfl, rfl⟩, .updateSlots i hc fun _ => ⟨rfl, rfl, rfl⟩⟩
    · exact ⟨h, .refl m, .refl m⟩

end SoundBut

end Machine

end OneShot
