import OneShot.Proofs.Weight

/-!
# Sound machines

`Sound` is the invariant of machines. It has two parts.

* `Linked` says how routines wait for each other. A handled body is resumed by one routine at a time,
  which listens to it; it waits at a perform or at a forwarded effect; or it was canceled and
  unwinds; or it has ended.
* `Counted` says who refers to whom. Each scope knows how many hold it, and is given up when nobody
  does; a body that can be resumed waits, and can be resumed in one way only; and the registry of a
  context has an entry for each resume that waits.

Both are stated of a machine in which one routine may be at work, with continuations in hand and
scopes that it holds loosely. `Sound` is the case in which nobody is at work.
-/

namespace OneShot

variable {P V σ : Type}

namespace Control

/-- Whether a body has begun and not ended, and does not wait for an input of `s`. -/
def isUnderWay (s : RoutineId) : Control P V σ → Bool
  | .fresh _ | .ended => false
  | .reading c => c != s
  | _ => true

/-- Whether a body has not begun. -/
def isFresh : Control P V σ → Bool
  | .fresh _ => true
  | _ => false

section IsActive

variable {c : Control P V σ} (h : c.isActive = true)
include h

theorem isUnderWay_of_isActive (s : RoutineId) : c.isUnderWay s = true := by
  cases c <;> first | rfl | exact absurd h (by simp [isActive])

theorem isFresh_of_isActive : c.isFresh = false := by
  cases c <;> first | rfl | exact absurd h (by simp [isActive])

theorem ne_reading_of_isActive (s : RoutineId) : c ≠ .reading s := by
  rintro rfl
  exact absurd h (by simp [isActive])

theorem ne_listening_of_isActive (s : RoutineId) : c ≠ .listening s := by
  rintro rfl
  exact absurd h (by simp [isActive])

theorem ne_ended_of_isActive : c ≠ .ended := by
  rintro rfl
  exact absurd h (by simp [isActive])

end IsActive

end Control

/-- Whether a routine waits at the slot. -/
def Slot.isAwaited {μ : Type} : Slot μ → Bool
  | .awaited _ => true
  | _ => false

/-- What the status of a handled body `s` says about it. -/
structure Routine.Phase (s : RoutineId) (r : Routine P V σ) : Prop where
  /-- Only the ends of coroutines that code has made are waited for. -/
  alone : r.joiners = []
  begun : r.status ≠ .notRunning
  running : r.status = .running →
    r.inbox = .empty ∧ r.outbox.isAwaited = true ∧ r.control.isUnderWay s = true
  suspending : r.status = .suspending →
    r.inbox = .awaited s ∧ r.outbox = .empty ∧ r.control = .reading s ∧
      ∃ f st, r.stack = f :: st ∧ f.need?.isSome ∧ Settled r.role st
  canceled : r.status = .canceled →
    r.inbox = .empty ∧ r.outbox.isAwaited = false ∧
      (r.control = .ended ∨ r.outbox = .empty ∧ r.control.isUnderWay s = true)
  atEnd : r.status = .panicked ∨ r.status = .done →
    r.inbox = .empty ∧ r.outbox.isAwaited = false ∧ r.control = .ended

/-- A handled body runs if somebody waits for its output. -/
theorem Routine.Phase.running_of_awaited {s : RoutineId} {r : Routine P V σ} (h : r.Phase s)
    (hout : r.outbox.isAwaited = true) : r.status = .running := by
  cases hs : r.status with
  | notRunning => exact absurd hs h.begun
  | running => rfl
  | suspending => simp [(h.suspending hs).2.1, Slot.isAwaited] at hout
  | canceled => simp [(h.canceled hs).2.1] at hout
  | panicked => simp [(h.atEnd (.inl hs)).2.1] at hout
  | done => simp [(h.atEnd (.inr hs)).2.1] at hout

/-- The phase of a handled body stays while the body goes on with its status and its slots as they
are. -/
theorem Routine.Phase.goOn {s : RoutineId} {r r' : Routine P V σ} (h : r.Phase s)
    (hr : r.control.isUnderWay s = true) (hr' : r'.control.isUnderWay s = true)
    (hstatus : r'.status = r.status) (hinbox : r'.inbox = r.inbox) (houtbox : r'.outbox = r.outbox)
    (hjoiners : r'.joiners = r.joiners) : r'.Phase s where
  alone := hjoiners.trans h.alone
  begun := hstatus ▸ h.begun
  running hs := by
    obtain ⟨hin, hout, -⟩ := h.running (hstatus ▸ hs)
    exact ⟨hinbox.trans hin, houtbox ▸ hout, hr'⟩
  suspending hs := by
    obtain ⟨-, -, hreads, -⟩ := h.suspending (hstatus ▸ hs)
    simp [hreads, Control.isUnderWay] at hr
  canceled hs := by
    obtain ⟨hin, hout, hended | ⟨hempty, -⟩⟩ := h.canceled (hstatus ▸ hs)
    · simp [hended, Control.isUnderWay] at hr
    · exact ⟨hinbox.trans hin, houtbox ▸ hout, .inr ⟨houtbox.trans hempty, hr'⟩⟩
  atEnd hs := by
    obtain ⟨-, -, hended⟩ := h.atEnd (hstatus ▸ hs)
    simp [hended, Control.isUnderWay] at hr

/-- Nobody gets an output of a handled body at rest, and an input goes to the body itself. -/
theorem Routine.Phase.slots_of_rest {s : RoutineId} {r : Routine P V σ} (h : r.Phase s)
    (hr : r.control.isUnderWay s = false) :
    r.outbox.isAwaited = false ∧ ∀ l, r.inbox = .awaited l → l = s ∧ r.control = .reading s := by
  cases hs : r.status with
  | notRunning => exact absurd hs h.begun
  | running => simp [(h.running hs).2.2] at hr
  | suspending =>
    obtain ⟨hin, hout, hreads, -⟩ := h.suspending hs
    refine ⟨by rw [hout]; rfl, fun l hl => ⟨?_, hreads⟩⟩
    rw [hin] at hl
    exact (Slot.awaited.inj hl).symm
  | canceled =>
    obtain ⟨hin, hout, -⟩ := h.canceled hs
    exact ⟨hout, fun l hl => by simp [hin] at hl⟩
  | panicked =>
    obtain ⟨hin, hout, -⟩ := h.atEnd (.inl hs)
    exact ⟨hout, fun l hl => by simp [hin] at hl⟩
  | done =>
    obtain ⟨hin, hout, -⟩ := h.atEnd (.inr hs)
    exact ⟨hout, fun l hl => by simp [hin] at hl⟩

namespace Machine

/-- What the stack of routine `j` looks like while it listens to `c`. -/
def Listens (m : Machine P V σ) (j c : RoutineId) : Prop :=
  match (m.routine c).scope with
  | some scope =>
    (m.routine c).outbox = .awaited j ∧
      ∃ st, (m.routine j).stack = .registered scope.ctx.place c :: .dispatch c :: st ∧
        Entered (m.routine j).role c st
  | none => Listening (m.routine j).role (m.routine j).stack

/-- The body of scope `s` has ended with an outcome for its scope. -/
def HasEnded (m : Machine P V σ) (s : RoutineId) (o : Outcome V (Parcel V)) : Prop :=
  (m.routine s).scope.isSome ∧ (m.routine s).control = .ended ∧
    ∀ b, o = .value (.signal (.done b)) → b.mark? = (m.routine s).role

/-- How routines wait for each other, while routine `w` is at work. -/
structure Linked (m : Machine P V σ) (w : Option RoutineId) : Prop where
  working : ∀ i, w = some i → (m.routine i).control.isActive = true
  posture : ∀ j, w ≠ some j → (m.routine j).Posture
  phase : ∀ s, (m.routine s).scope.isSome → (m.routine s).Phase s
  /-- Who waits for an output listens. -/
  outbox : ∀ c j, (m.routine c).outbox = .awaited j → (m.routine j).control = .listening c
  listening : ∀ j c, (m.routine j).control = .listening c → m.Listens j c
  /-- Who waits for an input reads, or has not begun. -/
  inbox : ∀ c r, (m.routine c).inbox = .awaited r →
    (m.routine r).control = .reading c ∨ r = c ∧ (m.routine c).control.isFresh = true
  /-- The inputs of a handled body are for the body itself. -/
  reading : ∀ r c, (m.routine r).control = .reading c →
    if (m.routine c).scope.isSome then r = c else Settled (m.routine r).role (m.routine r).stack
  /-- Who waits, waits for a coroutine that exists. -/
  present : ∀ j c, (m.routine j).control = .listening c ∨ (m.routine j).control = .reading c →
    c.val < m.routines.size
  /-- What is in the slots of a coroutine that code has made is for code. -/
  slots : ∀ c, (m.routine c).scope = none →
    (∀ a, (m.routine c).inbox = .full (.parcel a) → ∃ v, a = .plain v) ∧
      ∀ o, (m.routine c).outbox = .full o → o.IsPlain
  /-- A routine that has anything but a signal to resume from a body hears of its end. -/
  ending : ∀ j, w ≠ some j → ∀ o s, (m.routine j).control = .returning o →
    o.signal?.bind Signal.need? = none → awaitedScope? (m.routine j).stack = some s → m.HasEnded s o
  /-- The value of a scope answers a scope that is older. -/
  outer : ∀ s scope t, (m.routine s).scope = some scope → scope.finish = .into (some t) →
    t.val < s.val
  opened : ∀ s scope, (m.routine s).scope = some scope → scope.ctx.id.val < m.contexts.size
  clauses : ∀ s scope, (m.routine s).scope = some scope → ∀ e c, (e, c) ∈ scope.clauses → c.Suits e
  ready : ∀ j, (m.routine j).control.isActive = true → j ∈ m.ready
  main : (m.routine .main).scope = none ∧ 0 < m.routines.size

/-- The body waits that can be resumed so. -/
def Waits (m : Machine P V σ) (x : Key) : Prop :=
  (m.routine x.scope).scope.isSome ∧ (m.routine x.scope).status = .suspending ∧
    (m.routine x.scope).stack.head?.bind Frame.need? = some x.mark

/-- Who refers to whom, while routine `w` is at work, with ways to resume in hand and scopes that it
holds loosely. -/
structure Counted (m : Machine P V σ) (w : Option RoutineId) (hand : List Key)
    (loose : List RoutineId) : Prop where
  held : ∀ s, m.load w s + countKeys s hand + loose.count s = m.holders s
  single : ∀ s, m.tokens w ⟨.datum, s⟩ + m.tokens w ⟨.result, s⟩ + countKeys s hand ≤ 1
  waits : ∀ x, 0 < m.tokens w x + hand.count x → m.Waits x
  entries : ∀ c s, (m.registry (.context c)).items.count s = m.entries w c s
  owners : ∀ k, m.owners k ≤ if k.val < m.conts.size then 1 else 0

/-- Scopes that nobody holds are given up, apart from those that are `due`. -/
def Reclaimed (m : Machine P V σ) (due : List RoutineId) : Prop :=
  ∀ s scope, (m.routine s).scope = some scope → scope.holders = 0 → s ∉ due →
    (m.routine s).status.isTerminal = true

/-- The invariant of machines in which nobody is at work. -/
structure Sound (m : Machine P V σ) : Prop where
  linked : m.Linked none
  counted : m.Counted none [] []
  reclaimed : m.Reclaimed []

end Machine

end OneShot
