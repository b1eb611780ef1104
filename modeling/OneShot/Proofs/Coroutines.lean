import OneShot.Proofs.Slots

/-!
# Coroutines that code has made

A step may end with dealings with a coroutine that code has made: the routine resumes it, yields through
it, cancels it or waits for its end. `Deals` says what such a step does. The end of such a coroutine, or
of the main line, lets the routines go on that waited for it.
-/

namespace OneShot

variable {P V σ : Type}

/-- What a routine is doing after dealings with a coroutine that code has made. -/
def Control.IsPlain : Control P V σ → Prop
  | .returning o => o.IsPlain
  | .reading _ | .listening _ | .joining _ _ => True
  | _ => False

/-- A routine that nobody knows: a coroutine that has not begun, or nothing. -/
def Routine.IsNew (id : RoutineId) (r : Routine P V σ) : Prop :=
  r.scope = none ∧ r.stack = [] ∧ r.outbox = .empty ∧
    (r.inbox = .awaited id ∧ (∃ p, r.control = .fresh (.body p)) ∨
      r.inbox = .empty ∧ r.control = .ended)

namespace Machine

open Control

variable {m m' : Machine P V σ} {w : Option RoutineId} {i j r c : RoutineId}
  {o : Outcome V (Parcel V)} {a : Input V}

/-- A step of routine `i` ends with dealings with a coroutine that code has made. -/
structure Deals (m : Machine P V σ) (i : RoutineId) (m' : Machine P V σ) : Prop where
  sound : m'.Sound
  eases : Eases i m m'
  control : (m'.routine i).control.IsPlain

theorem Eases.deals {m'' : Machine P V σ} (h : Eases i m m') (hd : m'.Deals i m'') :
    m.Deals i m'' := ⟨hd.sound, h.trans hd.eases, hd.control⟩

namespace SoundBut

/-- A step ends with a plain outcome in a resume or cancellation. -/
theorem reply (h : m.SoundBut (some i)) (hst : Listening (m.routine i).role (m.routine i).stack)
    (ho : o.IsPlain) : m.Deals i (m.reply i o) := by
  refine ⟨h.atWork.reply (hst.fits ho) ?_ hst.awaitedScope?_eq_none hst.ne_registered,
    .updateSelf fun _ => ⟨rfl, rfl⟩, ?_⟩
  · rw [ho.signal?_eq_none]
    rfl
  · rw [Machine.reply, Machine.setControl, routine_update_self h.atWork.lt]
    exact ho

/-- A step ends with a wait for a coroutine that code has made. -/
theorem block (h : m.SoundBut (some i)) {d : Control P V σ} {f : Routine P V σ → Routine P V σ}
    (hlt : c.val < m.routines.size) (hc : (m.routine c).scope = none)
    (hf : ∀ r, (f r).control = r.control ∧ (f r).stack = r.stack ∧ (f r).scope = r.scope ∧
      (f r).status = r.status)
    (hin : ∀ r, (f (m.routine c)).inbox = .awaited r →
      (m.routine c).inbox = .awaited r ∨ r = i ∧ d = .reading c)
    (hout : ∀ j, (f (m.routine c)).outbox = .awaited j →
      (m.routine c).outbox = .awaited j ∨ j = i ∧ d = .listening c)
    (hfullIn : ∀ a, (f (m.routine c)).inbox = .full a → (m.routine c).inbox = .full a)
    (hfullOut : ∀ o, (f (m.routine c)).outbox = .full o → (m.routine c).outbox = .full o)
    (hd : (d = .reading c ∨ ∃ a, d = .joining c a) ∧
        Settled (m.routine i).role (m.routine i).stack ∨
      d = .listening c ∧ Listening (m.routine i).role (m.routine i).stack) :
    m.Deals i (((m.update c f).setControl i d).pause i) := by
  have hi := h.atWork.lt
  have hlistening : Listening (m.routine i).role (m.routine i).stack := by
    rcases hd with ⟨-, hst⟩ | ⟨-, hst⟩
    · exact hst.listening
    · exact hst
  have hkeys : d.keys = [] ∧ d.need? = none := by
    rcases hd with ⟨rfl | ⟨a, rfl⟩, -⟩ | ⟨rfl, -⟩ <;> exact ⟨rfl, rfl⟩
  have hkeeps : m.Keeps (m.update c f) := Keeps.update m c fun r => ⟨(hf r).2.1, (hf r).2.2.1⟩
  have hi' : i.val < (m.update c f).routines.size := by simpa using hi
  have hself : ((m.update c f).setControl i d).routine i =
      { (m.update c f).routine i with control := d } := routine_update_self hi' _
  have hcontrol : (((m.update c f).setControl i d).routine i).control.IsPlain := by
    rw [hself]
    rcases hd with ⟨rfl | ⟨a, rfl⟩, -⟩ | ⟨rfl, -⟩ <;> trivial
  have heases : Eases i m ((m.update c f).setControl i d) :=
    (Eases.updateSlots i hc fun r => ⟨(hf r).1, (hf r).2.1, (hf r).2.2.1⟩).trans
      (.updateSelf fun _ => ⟨rfl, rfl⟩)
  refine ⟨⟨h.linked.block hlt hc (fun r => (hf r).1) (fun r => (hf r).2.1) (fun r => (hf r).2.2.1)
    (fun r => (hf r).2.2.2) hin hout hfullIn hfullOut hd, ?_, ?_⟩,
    heases.congr rfl rfl, hcontrol⟩
  · have h₁ : (m.update c f).Counted (some i) [] [] := by
      refine h.counted.sameRefs hlt (hf _).2.1 (hf _).2.2.1 (fun _ => ⟨by rw [(hf _).1],
        by rw [(hf _).1], Routine.entries_congr (hf _).2.1 (by rw [(hf _).1])⟩) ?_
      rintro y rfl - ⟨hsome, -⟩
      rw [hc] at hsome
      cases hsome
    have h₂ : ((m.update c f).setControl i d).Counted (some i) [] [] := by
      refine h₁.sameRefs hi' rfl rfl (by simp) ?_
      rintro y rfl - hw
      unfold Waits at hw ⊢
      rwa [routine_update_self hi']
    refine h₂.finishWork (by simpa [setControl] using hi) (fun _ => rfl) rfl rfl ?_ ?_ ?_
    · intro t
      rw [hself, hkeys.1]
      rfl
    · intro y
      rw [hself]
      simp [Routine.pending?, hkeys.1, hkeys.2]
    · intro e t
      have hzero : ({ (m.update c f).routine i with control := d } : Routine P V σ).entries e t = 0 :=
        Routine.entries_eq_zero (fun e s st => hkeeps.stack i ▸ hlistening.ne_registered e s st) e t
      rw [hself, hzero, Nat.add_zero]
      rfl
  · intro t scope ht hz hdue
    have hold := h.reclaimed t scope
    rw [routine_pause, setControl, routine_update_ite hi', routine_update_ite hlt,
      routine_update_ite hlt] at ht ⊢
    grind

/-- A step ends with the listening to a coroutine that code has made. -/
theorem listen (h : m.SoundBut (some i)) (hc : (m.routine c).scope = none)
    (hlt : c.val < m.routines.size) (hst : Listening (m.routine i).role (m.routine i).stack) :
    m.Deals i (m.listen i c) := by
  have hslots := h.linked.slots c hc
  unfold Machine.listen
  split
  · next o hout =>
    have ho := hslots.2 o hout
    have hclear : ∀ f : Routine P V σ → Routine P V σ,
        (∀ r, (f r).control = r.control ∧ (f r).stack = r.stack ∧ (f r).scope = r.scope ∧
          (f r).inbox = r.inbox ∧ (f r).outbox = .empty) → m.Deals i ((m.update c f).reply i o) := by
      intro f hf
      have hkeeps : m.Keeps (m.update c f) :=
        Keeps.update m c fun r => ⟨(hf r).2.1, (hf r).2.2.1⟩
      refine (Eases.updateSlots i hc fun r => ⟨(hf r).1, (hf r).2.1, (hf r).2.2.1⟩).deals
        (SoundBut.reply (h.updateSlots hc (hf _).1 (hf _).2.1 (hf _).2.2.1 ?_ ?_ ?_ ?_) ?_ ho)
      · intro r hr
        rwa [(hf _).2.2.2.1] at hr
      · intro r hr
        rw [(hf _).2.2.2.2] at hr
        cases hr
      · intro b hb
        rw [(hf _).2.2.2.1] at hb
        exact hslots.1 b hb
      · intro b hb
        rw [(hf _).2.2.2.2] at hb
        cases hb
      · rwa [hkeeps.role, hkeeps.stack i]
    cases o with
    | panic p =>
      simp only [hear, setStatus, update_update]
      exact hclear _ fun r => ⟨rfl, rfl, rfl, rfl, rfl⟩
    | value b => exact hclear _ fun r => ⟨rfl, rfl, rfl, rfl, rfl⟩
    | failure f => exact hclear _ fun r => ⟨rfl, rfl, rfl, rfl, rfl⟩
  · refine h.block hlt hc (fun _ => ⟨rfl, rfl, rfl, rfl⟩) (fun _ => .inl) ?_ (fun _ => id) (by simp)
      (.inr ⟨rfl, hst⟩)
    intro j hj
    exact .inr ⟨(Slot.awaited.inj hj).symm, rfl⟩
  · have hid := update_id m c
    have hb := h.block (f := id) hlt hc (fun _ => ⟨rfl, rfl, rfl, rfl⟩) (fun _ => .inl)
      (fun _ => .inl) (fun _ => id) (fun _ => id) (.inr ⟨rfl, hst⟩)
    rwa [hid] at hb

/-- A step ends with a resume of a coroutine that code has made. -/
theorem resume (h : m.SoundBut (some i)) (hc : (m.routine c).scope = none)
    (hst : Listening (m.routine i).role (m.routine i).stack) (v : V) :
    m.Deals i (m.resume i c (.plain v)) := by
  unfold Machine.resume
  split
  · next hresumable =>
    have hlt : c.val < m.routines.size := by
      by_contra hge
      rw [status, routine_of_size_le (Nat.le_of_not_lt hge)] at hresumable
      cases hresumable
    have hslots := h.linked.slots c hc
    have h₁ : (m.setStatus c .running).SoundBut (some i) :=
      h.updateSlots hc rfl rfl rfl (fun _ => id) (fun _ => id) hslots.1 hslots.2
    have hk₁ : m.Keeps (m.setStatus c .running) := Keeps.update m c fun _ => ⟨rfl, rfl⟩
    have hk := hk₁.trans (Keeps.sendInput _ c (.parcel (.plain v)))
    have he₁ : Eases i m (m.setStatus c .running) := .updateSlots i hc fun _ => ⟨rfl, rfl, rfl⟩
    obtain ⟨h₂, he₂⟩ :=
      h₁.sendInput (a := .parcel (.plain v)) i ((hk₁.scope c).trans hc) ⟨v, rfl⟩
    refine (he₁.trans he₂).deals (h₂.listen ((hk.scope c).trans hc) ?_ ?_)
    · rwa [hk.size]
    · rwa [hk.role, hk.stack i]
  · exact h.reply hst trivial

/-- A step ends with the reading from a coroutine that code has made. -/
theorem read (h : m.SoundBut (some i)) (hc : (m.routine c).scope = none)
    (hlt : c.val < m.routines.size) (hst : Settled (m.routine i).role (m.routine i).stack) :
    m.Deals i (m.read i c) := by
  have hslots := h.linked.slots c hc
  unfold Machine.read
  split
  · next a hin =>
    have h₁ : (m.update c fun r => { r with inbox := .empty }).SoundBut (some i) :=
      h.updateSlots hc rfl rfl rfl (by simp) (fun _ => id) (by simp) hslots.2
    have hk : m.Keeps (m.update c fun r => { r with inbox := .empty }) :=
      Keeps.update m c fun _ => ⟨rfl, rfl⟩
    have hst₁ : Listening ((m.update c fun r => { r with inbox := .empty }).routine i).role
        ((m.update c fun r => { r with inbox := .empty }).routine i).stack := by
      rw [hk.role, hk.stack]
      exact hst.listening
    rw [deliver_of_isActive (h₁.linked.working i rfl)]
    have he : Eases i m (m.update c fun r => { r with inbox := .empty }) :=
      .updateSlots i hc fun _ => ⟨rfl, rfl, rfl⟩
    refine he.deals (h₁.reply hst₁ ?_)
    cases a with
    | parcel b =>
      obtain ⟨v, rfl⟩ := hslots.1 b hin
      trivial
    | cancel => trivial
  · refine h.block hlt hc (fun _ => ⟨rfl, rfl, rfl, rfl⟩) ?_ (fun _ => .inl) (by simp) (fun _ => id)
      (.inl ⟨.inl rfl, hst⟩)
    intro j hj
    exact .inr ⟨(Slot.awaited.inj hj).symm, rfl⟩
  · have hb := h.block (f := id) hlt hc (fun _ => ⟨rfl, rfl, rfl, rfl⟩) (fun _ => .inl)
      (fun _ => .inl) (fun _ => id) (fun _ => id) (.inl ⟨.inl rfl, hst⟩)
    rwa [update_id] at hb

/-- A step ends with a yield through a coroutine that code has made. -/
theorem yield (h : m.SoundBut (some i)) (hc : (m.routine c).scope = none)
    (hst : Settled (m.routine i).role (m.routine i).stack) (v : V) :
    m.Deals i (m.yield i c (.plain v)) := by
  unfold Machine.yield
  split
  · next hrunning =>
    have hlt : c.val < m.routines.size := by
      by_contra hge
      rw [status, routine_of_size_le (Nat.le_of_not_lt hge)] at hrunning
      cases hrunning
    have hslots := h.linked.slots c hc
    have h₁ : (m.setStatus c .suspending).SoundBut (some i) :=
      h.updateSlots hc rfl rfl rfl (fun _ => id) (fun _ => id) hslots.1 hslots.2
    have hk₁ : m.Keeps (m.setStatus c .suspending) := Keeps.update m c fun _ => ⟨rfl, rfl⟩
    have hk := hk₁.trans (Keeps.sendOutput _ c (.value (.plain v)))
    have he₁ : Eases i m (m.setStatus c .suspending) := .updateSlots i hc fun _ => ⟨rfl, rfl, rfl⟩
    obtain ⟨h₂, he₂⟩ :=
      h₁.sendOutput (o := .value (.plain v)) i ((hk₁.scope c).trans hc) trivial
    refine (he₁.trans he₂).deals (h₂.read ((hk.scope c).trans hc) ?_ ?_)
    · rwa [hk.size]
    · rwa [hk.role, hk.stack i]
  · exact h.reply hst.listening trivial
  · exact h.reply hst.listening trivial

/-- The registries of a program are not counted. -/
theorem setRegistry (h : m.SoundBut w) (r : RegistryId) (g : Registry RoutineId) :
    (m.setRegistry (.registry r) g).SoundBut w :=
  ⟨h.linked.congr (fun _ => rfl) le_rfl le_rfl fun _ _ => id,
    ⟨h.counted.held, h.counted.single, h.counted.waits, h.counted.entries, h.counted.owners⟩,
    h.reclaimed⟩

/-- A step ends with a yield through the newest entry of a registry that the program has made. -/
theorem suspend (h : m.SoundBut (some i)) (hi : (m.routine i).scope = none)
    (hst : Settled (m.routine i).role (m.routine i).stack) (r : RegistryId) (v : V) :
    m.Deals i (m.suspend i (.registry r) (.plain v)) := by
  unfold Machine.suspend
  split
  · exact h.reply hst.listening trivial
  · split
    · next c g hpop =>
      have hci : c = i := by
        have hfind : (m.registry (.registry r)).items.find? (· == i) = some c :=
          congrArg Prod.fst hpop
        simpa using List.find?_some hfind
      subst hci
      have he : Eases c m (m.setRegistry (.registry r) g) := (Eases.refl m).congr rfl rfl
      exact he.deals ((h.setRegistry r g).yield hi hst v)
    · exact h.reply hst.listening trivial

/-- A routine that is at work pushes a frame that refers to nothing. -/
theorem pushFrame (h : m.SoundBut (some i)) {f : Frame P V σ} (hf : ∀ s, f.holds s = 0)
    (hf' : ∀ k, f.owns k = 0) : (m.pushFrame i f).SoundBut (some i) :=
  (h.atWork.pushFrame hf hf').soundBut

theorem routine_pushFrame (h : m.SoundBut (some i)) (f : Frame P V σ) :
    (m.pushFrame i f).routine i = { m.routine i with stack := f :: (m.routine i).stack } :=
  routine_update_self h.atWork.lt _

/-- A step ends with a registered resume of a coroutine that code has made. -/
theorem resumeOn (h : m.SoundBut (some i)) (hc : (m.routine c).scope = none)
    (hst : Settled (m.routine i).role (m.routine i).stack) (r : RegistryId) (v : V) :
    m.Deals i (m.resumeOn i (.registry r) c (.plain v)) := by
  have h₁ := h.setRegistry r ((m.registry (.registry r)).push c)
  have h₂ := h₁.pushFrame (f := .registered (.registry r) c) (fun _ => rfl) (fun _ => rfl)
  have he₁ : Eases i m (m.setRegistry (.registry r) ((m.registry (.registry r)).push c)) :=
    (Eases.refl m).congr rfl rfl
  have he := he₁.trans (.pushFrame (.registered (.registry r) c))
  refine he.deals (h₂.resume ?_ ?_ v)
  · rw [Machine.pushFrame, routine_update]
    split <;> exact hc
  · rw [h₁.routine_pushFrame]
    exact hst

/-- A step ends with the cancellation of a coroutine that code has made. -/
theorem cancel (h : m.SoundBut (some i)) (hc : (m.routine c).scope = none)
    (hst : Settled (m.routine i).role (m.routine i).stack) (answer : V) :
    m.Deals i (m.cancel i c answer) := by
  unfold Machine.cancel
  split
  · next hstatus =>
    have hlt : c.val < m.routines.size := by
      by_contra hge
      rw [status, routine_of_size_le (Nat.le_of_not_lt hge)] at hstatus
      cases hstatus
    have hslots := h.linked.slots c hc
    have h₁ : (m.setStatus c .canceled).SoundBut (some i) :=
      h.updateSlots hc rfl rfl rfl (fun _ => id) (fun _ => id) hslots.1 hslots.2
    have hk₁ : m.Keeps (m.setStatus c .canceled) := Keeps.update m c fun _ => ⟨rfl, rfl⟩
    have h₂ := h₁.pushFrame (f := .canceling answer) (fun _ => rfl) (fun _ => rfl)
    have hc₂ : (((m.setStatus c .canceled).pushFrame i (.canceling answer)).routine c).scope =
        none := by
      rw [Machine.pushFrame, routine_update]
      split <;> exact (hk₁.scope c).trans hc
    have hk := Keeps.sendInput ((m.setStatus c .canceled).pushFrame i (.canceling answer)) c .cancel
    have he₁ : Eases i m (m.setStatus c .canceled) := .updateSlots i hc fun _ => ⟨rfl, rfl, rfl⟩
    obtain ⟨h₃, he₃⟩ := h₂.sendInput (a := .cancel) i hc₂ trivial
    refine (he₁.trans ((Eases.pushFrame _).trans he₃)).deals
      (h₃.listen ((hk.scope c).trans hc₂) ?_ ?_)
    · rw [hk.size]
      simpa [Machine.pushFrame, setStatus] using hlt
    · rw [hk.role, hk.stack i, h₁.routine_pushFrame]
      change Settled ((m.setStatus c .canceled).routine i).role _
      rw [hk₁.role, hk₁.stack]
      exact hst
  · exact h.reply hst.listening trivial

end SoundBut
namespace SoundBut

/-- A step ends with the wait for the end of a coroutine. -/
theorem join (h : m.SoundBut (some i)) (hc : (m.routine c).scope = none)
    (hst : Settled (m.routine i).role (m.routine i).stack) (answer : V) :
    m.Deals i (m.join i c answer) := by
  unfold Machine.join
  split
  · exact h.reply hst.listening trivial
  · next hne =>
    have hlt : c.val < m.routines.size := lt_of_ne_ended hne
    exact h.block hlt hc (fun _ => ⟨rfl, rfl, rfl, rfl⟩) (fun _ => .inl) (fun _ => .inl)
      (fun _ => id) (fun _ => id) (.inl ⟨.inr ⟨answer, rfl⟩, hst⟩)

/-- A step ends with a coroutine that is given up, and with the wait for its end. -/
theorem dispose (h : m.SoundBut (some i)) (hc : (m.routine c).scope = none)
    (hst : Settled (m.routine i).role (m.routine i).stack) (answer : V) :
    m.Deals i (m.dispose i c answer) := by
  unfold Machine.dispose
  split
  · exact h.reply hst.listening trivial
  · obtain ⟨h', hk, he⟩ := h.close i hc
    have hst' : Settled ((m.close c).2.routine i).role ((m.close c).2.routine i).stack := by
      rwa [hk.role, hk.stack i]
    split
    · next heq =>
      rw [heq] at h' hk hst' he
      exact he.deals (h'.join ((hk.scope c).trans hc) hst' answer)
    · next heq =>
      rw [heq] at h' hst' he
      exact he.deals (h'.reply hst'.listening trivial)

end SoundBut

/-! ## Ends -/

/-- The body of a coroutine that code has made ends, or the main line does. -/
theorem Linked.endPlain (h : m.Linked none) (hscope : (m.routine i).scope = none)
    (hc : (m.routine i).control = .returning o) (hst : (m.routine i).stack = []) :
    ((m.update i (Routine.atEnd o)).pause i).Linked none := by
  have hlt : i.val < m.routines.size := lt_of_ne_ended (by simp [hc])
  have hr : ∀ j, ((m.update i (Routine.atEnd o)).pause i).routine j =
      if j = i then (m.routine i).atEnd o else m.routine j := fun j => by
    rw [routine_pause, routine_update_ite hlt]
  have hsize : ((m.update i (Routine.atEnd o)).pause i).routines.size = m.routines.size :=
    size_update m i _
  generalize hm : (m.update i (Routine.atEnd o)).pause i = m' at hr hsize
  have hctx : m'.contexts.size = m.contexts.size := by rw [← hm]; rfl
  have hready : m'.ready = m.ready.erase i := by rw [← hm]; rfl
  have hended : ∀ s o, m.HasEnded s o → m'.HasEnded s o := fun s o hs =>
    hs.stays fun l hsome _ => by
      rw [hr, if_neg]
      rintro rfl
      rw [hscope] at hsome
      cases hsome
  constructor
  case working => simp
  case posture =>
    have hl := h.posture
    have hi : ((m.routine i).atEnd o).Posture := hst
    grind
  case phase =>
    have hl := h.phase
    grind [Routine.atEnd]
  case outbox =>
    have hl := h.outbox
    grind [Routine.atEnd]
  case listening =>
    have hl := h.listening
    grind [Routine.atEnd, Listens, Routine.role]
  case inbox =>
    have hl := h.inbox
    grind [Routine.atEnd, isFresh]
  case reading =>
    have hl := h.reading
    grind [Routine.atEnd, Routine.role]
  case present =>
    have hl := h.present
    grind [Routine.atEnd]
  case slots =>
    have hl := h.slots
    grind [Routine.atEnd]
  case ending =>
    have hl := h.ending
    grind [Routine.atEnd]
  case outer =>
    have hl := h.outer
    grind [Routine.atEnd]
  case opened =>
    have hl := h.opened
    grind [Routine.atEnd]
  case clauses =>
    have hl := h.clauses
    grind [Routine.atEnd]
  case ready =>
    have hl := h.ready
    intro j hj
    have hji : j ≠ i := by grind [Routine.atEnd, isActive]
    rw [hready, List.mem_erase_of_ne hji]
    grind
  case main =>
    have hl := h.main
    grind [Routine.atEnd]

namespace SoundBut

/-- The wait of a joiner is over. -/
theorem wakeJoiner (h : m.SoundBut none) (i j : RoutineId) :
    (m.wakeJoiner j).SoundBut none ∧ Eases i m (m.wakeJoiner j) := by
  unfold Machine.wakeJoiner
  split
  · next c answer hc =>
    have hlt : j.val < m.routines.size := lt_of_ne_ended (by simp [hc])
    have hst : Settled (m.routine j).role (m.routine j).stack := by
      have hp := h.linked.posture j (by simp)
      simpa only [Routine.Posture, hc] using hp
    have hw : m.WaitsPlainly j := by
      unfold WaitsPlainly
      rw [hc]
      trivial
    refine ⟨?_, (Eases.setControl i hw (d := .returning (.value (.plain answer))) trivial).congr
      rfl rfl⟩
    refine h.awaken (by simp) hlt (.inl rfl) ?_ ?_ ?_ (hst.fits trivial) ?_ ?_
      (awaitedScope?_eq_none hst)
    · exact fun _ => by rw [hc]; rfl
    · intro d hd
      rcases (h.linked.reader hd).1 with hr | ⟨s, hs⟩
      · cases hc.symm.trans hr
      · cases hc.symm.trans hs
    · intro d hd
      cases hc.symm.trans (h.linked.outbox d j hd)
    · rw [hc]
      exact ⟨rfl, rfl⟩
    · rw [hc]
      exact ⟨rfl, rfl⟩
  · exact ⟨h, .refl m⟩

theorem wakeJoiners (h : m.SoundBut none) (i : RoutineId) (js : List RoutineId) :
    (js.foldl Machine.wakeJoiner m).SoundBut none ∧ Eases i m (js.foldl Machine.wakeJoiner m) := by
  induction js generalizing m with
  | nil => exact ⟨h, .refl m⟩
  | cons j js ih =>
    obtain ⟨h₁, he₁⟩ := h.wakeJoiner i j
    obtain ⟨h₂, he₂⟩ := ih h₁
    exact ⟨h₂, he₁.trans he₂⟩

end SoundBut

/-- A step ends the body of a coroutine that code has made, or the main line. -/
theorem Sound.finishPlain (h : m.Sound) (hscope : (m.routine i).scope = none)
    (hc : (m.routine i).control = .returning o) (hst : (m.routine i).stack = []) :
    (m.finish i o).Sound ∧ ∀ k, Eases k (m.setControl i .ended) (m.finish i o) := by
  have hlt : i.val < m.routines.size := lt_of_ne_ended (by simp [hc])
  have ho : o.IsPlain := by
    have hp := h.linked.posture i (by simp)
    simp only [Routine.Posture, hc, hst, Fits, Routine.role, hscope, Option.map_none] at hp
    exact hp
  have hkeys : (m.routine i).control.keys = [] ∧ (m.routine i).control.need? = none := by
    rw [hc]
    exact (show (Control.returning o : Control P V σ).IsEased from ho).keys_eq_nil
  have h' : ((m.update i (Routine.atEnd o)).pause i).SoundBut none := by
    refine ⟨h.linked.endPlain hscope hc hst, ?_, ?_⟩
    · refine (h.counted.sameRefs (f := Routine.atEnd o) hlt rfl rfl
        (fun _ => ⟨hkeys.1.symm, hkeys.2.symm, ?_⟩) ?_).setReady _
      · intro e t
        simp [Routine.entries, Routine.atEnd, hst]
      · rintro y rfl - ⟨hsome, -⟩
        rw [hscope] at hsome
        cases hsome
    · intro t scope ht hz hdue
      have hold := h.reclaimed t scope
      rw [routine_pause, routine_update_ite hlt] at ht ⊢
      grind [Routine.atEnd]
  have hscope' : (((m.update i (Routine.atEnd o)).pause i).routine i).scope = none := by
    rw [routine_pause, routine_update_self hlt]
    exact hscope
  have he : ∀ k, Eases k (m.setControl i .ended) ((m.update i (Routine.atEnd o)).pause i) := by
    intro k
    have heq : (m.update i (Routine.atEnd o)).pause i =
        ((m.setControl i .ended).update i fun r =>
          { r with status := o.ending r.status, joiners := [] }).pause i := by
      rw [Machine.setControl, update_update]
      rfl
    rw [heq]
    have hnone : ((m.setControl i .ended).routine i).scope = none := by
      rw [Machine.setControl, routine_update_self hlt]
      exact hscope
    exact (Eases.updateSlots k hnone (f := fun r =>
      { r with status := o.ending r.status, joiners := [] })
        fun r => ⟨rfl, rfl, rfl⟩).congr rfl rfl
  rw [finish_eq]
  have h₁ := fun k => h'.sendOutput k hscope' ho
  have h₂ := fun k => (h₁ k).1.wakeJoiners k (m.routine i).joiners
  exact ⟨(h₂ i).1.sound, fun k => (he k).trans ((h₁ k).2.trans (h₂ k).2)⟩

/-! ## New routines, registries and contexts -/

/-- A machine gets a routine more that nobody knows. -/
theorem Linked.growPlain (h : m.Linked w) {x : Routine P V σ} (hx : x.IsNew m.next) :
    (m.grow x).Linked w := by
  have habsent := m.routine_next
  obtain ⟨hscope, hstack, hout, hrest⟩ := hx
  have hr := m.routine_grow x
  have hsize : (m.grow x).routines.size = m.routines.size + 1 := by simp [Machine.grow]
  have hval : m.next.val = m.routines.size := rfl
  have hw : w ≠ some m.next := by
    rintro rfl
    have hactive := h.working _ rfl
    rw [habsent] at hactive
    cases hactive
  have hctx : (m.grow x).contexts = m.contexts := rfl
  have hready : (m.grow x).ready = m.ready := rfl
  have hrole : x.role = none := by simp [Routine.role, hscope]
  have hposture : x.Posture := by
    rcases hrest with ⟨-, p, hc⟩ | ⟨-, hc⟩
    · simp only [Routine.Posture, hc]
      exact ⟨hstack, hscope, p, rfl⟩
    · simp only [Routine.Posture, hc]
      exact hstack
  have hidle : x.control.isActive = false ∧ (∀ c, x.control ≠ .listening c) ∧
      ∀ c, x.control ≠ .reading c := by
    rcases hrest with ⟨-, p, hc⟩ | ⟨-, hc⟩ <;> simp [hc, isActive]
  generalize m.grow x = m' at *
  constructor
  case working =>
    have hl := h.working
    grind
  case posture =>
    have hl := h.posture
    grind
  case phase =>
    have hl := h.phase
    grind
  case outbox =>
    have hl := h.outbox
    grind [Routine.absent]
  case listening =>
    have hl := h.listening
    have hp := h.present
    intro j c hc
    have hj : j ≠ m.next := by grind
    rw [hr, if_neg hj] at hc
    have hcn : c ≠ m.next := by
      rintro rfl
      exact Nat.lt_irrefl _ (hp j _ (.inl hc))
    refine (hl j c hc).congr ?_ ?_ ?_ ?_ <;> grind [Routine.role]
  case inbox =>
    have hl := h.inbox
    grind [Routine.absent, isFresh]
  case reading =>
    have hl := h.reading
    have hp := h.present
    intro j c hc
    have hj : j ≠ m.next := by grind
    rw [hr, if_neg hj] at hc
    have hcn : c ≠ m.next := by
      rintro rfl
      exact Nat.lt_irrefl _ (hp j _ (.inr hc))
    rw [hr c, hr j, if_neg hcn, if_neg hj]
    exact hl j c hc
  case present =>
    have hl := h.present
    grind
  case slots =>
    have hl := h.slots
    grind
  case ending =>
    have hl := h.ending
    intro j hj o s ho hneed hs
    have hjn : j ≠ m.next := by grind [isActive]
    rw [hr, if_neg hjn] at ho hs
    refine (hl j hj o s ho hneed hs).stays fun l hsome _ => ?_
    rw [hr, if_neg]
    rintro rfl
    exact Nat.lt_irrefl _ (lt_of_scope hsome)
  case outer =>
    have hl := h.outer
    grind
  case opened =>
    have hl := h.opened
    grind
  case clauses =>
    have hl := h.clauses
    grind
  case ready =>
    have hl := h.ready
    grind
  case main =>
    have hl := h.main
    grind

namespace SoundBut

theorem grow (h : m.SoundBut w) {x : Routine P V σ} (hx : x.IsNew m.next) :
    (m.grow x).SoundBut w := by
  obtain ⟨hscope, hstack, hout, hrest⟩ := id hx
  have hcontrol : x.control.keys = [] ∧ x.control.need? = none := by
    rcases hrest with ⟨-, p, hc⟩ | ⟨-, hc⟩
    · rw [hc]; exact ⟨rfl, rfl⟩
    · rw [hc]; exact ⟨rfl, rfl⟩
  have hkeys : x.keys = [] := by simp [Routine.keys, Routine.into?, hscope, hcontrol.1]
  have hw : w ≠ some m.next := by
    rintro rfl
    have hactive := h.linked.working _ rfl
    rw [m.routine_next] at hactive
    cases hactive
  refine ⟨h.linked.growPlain hx, ?_, ?_⟩
  · have hc := h.counted.grow hw hstack hcontrol.2 (by simp [hkeys]) (by simp [hkeys])
    have hzero : x.holders = 0 := by simp [Routine.holders, hscope]
    rwa [hzero] at hc
  · intro t scope ht hz hdue
    have hold := h.reclaimed t scope
    rw [routine_grow] at ht ⊢
    grind

/-- The store and the number of effects are not counted. -/
theorem setGlobals (h : m.SoundBut w) (store : σ) (n : Nat) :
    { m with store := store, effects := n }.SoundBut w :=
  ⟨h.linked.congr (fun _ => rfl) le_rfl le_rfl fun _ _ => id,
    ⟨h.counted.held, h.counted.single, h.counted.waits, h.counted.entries, h.counted.owners⟩,
    h.reclaimed⟩

/-- A machine gets a registry more, for a program or for a context. -/
theorem openPlaces (h : m.SoundBut w) (gs hs : Array (Registry RoutineId))
    (hgs : m.contexts.size ≤ gs.size) (hsame : ∀ c : Nat, gs.getD c .empty = m.contexts.getD c .empty) :
    { m with contexts := gs, registries := hs }.SoundBut w := by
  refine ⟨h.linked.congr (fun _ => rfl) le_rfl hgs fun _ _ => id,
    ⟨h.counted.held, h.counted.single, h.counted.waits, ?_, h.counted.owners⟩, h.reclaimed⟩
  intro c s
  refine Eq.trans ?_ (h.counted.entries c s)
  simp only [registry, hsame]

end SoundBut

end Machine

end OneShot
