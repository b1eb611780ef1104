import OneShot.Proofs.Alternating
import OneShot.Proofs.StatusChanges

/-!
# Machines enact exchanges

A machine carries out a resume, a cancellation, a yield or the end of a body in one step. In terms of an
`Exchange` that is a run: the holder or the body takes the steps of its operation, and the other side answers
at once. So the machine depicts an exchange only at moments at which nobody is in the middle of an operation,
except that a holder listens while its call is in progress (`Depicts`). `Enacts` says that a change of the
machine is a run of what it depicts, and `ReachesUnder.enacts` that this holds of whole runs. Hence what is true
of all exchanges is true of every coroutine of a machine.
-/

namespace OneShot

/-- The message in a slot. -/
def Slot.message? {μ : Type} : Slot μ → Option μ
  | .full x => some x
  | _ => none

namespace Control

variable {P V σ : Type} {k : Control P V σ}

/-- The place of a body whose line of execution is doing this, with what the body has in hand. -/
def body : Control P V σ → Exchange.Body (Option (Outcome V (Parcel V))) V
  | .fresh _ => .fresh
  | .starting _ p => .working (some (.value p))
  | .returning o => .working (some o)
  | .reading _ => .reading some
  | .ended => .ended
  | _ => .working none

/-- The body of a routine that goes on works. -/
theorem isWorking_of_isActive (h : k.isActive = true) : k.body.isWorking = true := by
  cases k <;> first | rfl | cases h

/-- So does one that waits for the end of a coroutine, before and after. -/
theorem similar_awoken (k : Control P V σ) :
    k.awoken.body = k.body ∨ k.body.isWorking = true ∧ k.awoken.body.isWorking = true := by
  cases k <;> first | exact .inl rfl | exact .inr ⟨rfl, rfl⟩

end Control

namespace Exchange

variable {S V : Type} {b : Behavior S V} {x : Exchange S V} {rest : List (Event V)} {s : Status}
  {c : Body S V} {t : S} {a : Input V} {p : Parcel V} {o : Outcome V (Parcel V)}

/-! ## Whole operations -/

/-- A call is accepted, and the body goes on with its input. -/
theorem run_call (hs : s.isResumable = true) (ha : a = .cancel → s = .suspending) (hc : c.Expects a) :
    Run b ⟨s, none, none, .idle, c⟩ [.sent a, .taken a]
      ⟨a.accepted, none, none, .listening, c.after b a⟩ := by
  have haccept : Step b ⟨s, none, none, .idle, c⟩ none ⟨a.accepted, none, none, .sending a, c⟩ := by
    cases a with
    | parcel p => exact .holder (.resume p hs)
    | cancel => exact .holder (.cancel (ha rfl))
  exact ((Run.refl.step haccept).step (.holder .send)).step (hc.step_taken _)

/-- The body hands out, and the call comes back. -/
theorem run_yield (next : Outcome V (Parcel V) → S) (hb : b.may t (.yields p next)) :
    Run b ⟨.running, none, none, .listening, .working t⟩ [.given (.value p), .heard (.value p)]
      ⟨.suspending, none, none, .idle, .reading next⟩ :=
  ((Run.refl.step (.body (.yield hb rfl))).step (.body (.give (h := .listening) nofun))).step (.holder .hear)

/-- The body ends, and the call comes back. -/
theorem run_finish (hb : b.may t (.ends o)) : Run b ⟨s, none, none, .listening, .working t⟩
    [.given o, .heard o] ⟨o.ending s, none, none, .idle, .ended⟩ := by
  have hheard : Run b ⟨s, none, none, .listening, .working t⟩ [.given o, .heard o]
      ⟨o.ending s, none, none, .told o, .ended⟩ :=
    ((Run.refl.step (.body (.finish hb))).step (.body (.close (h := .listening) nofun))).step (.holder .hear)
  cases o with
  | panic p => exact hheard.step (.holder .panic)
  | value _ => exact hheard
  | failure _ => exact hheard

/-- The body of a dropped coroutine ends, and its output stays where it is. -/
theorem run_leave (hb : b.may t (.ends o)) : Run b ⟨s, none, none, .mute, .working t⟩ [.given o]
    ⟨o.ending s, none, some o, .mute, .ended⟩ :=
  (Run.refl.step (.body (.finish hb))).step (.body (.close (h := .mute) nofun))

/-- The holder drops a coroutine that waits for an input. -/
theorem run_drop (hs : s.isResumable = true) (c : Body S V) :
    Run b ⟨s, none, none, .idle, c⟩ [] ⟨.canceled, none, none, .mute, c⟩ := by
  have hdrop : Step b ⟨s, none, none, .idle, c⟩ none ⟨.canceled, none, none, .dropping, c⟩ := by
    simpa [hs] using Step.holder (b := b) (x := ⟨s, none, none, .idle, c⟩) .drop
  exact (Run.refl.step hdrop).step (.holder .hangUp)

/-- The body of a dropped coroutine finds that out. -/
theorem run_miss (next : Outcome V (Parcel V) → S) :
    Run b ⟨.canceled, none, none, .mute, .reading next⟩ [.missed]
      ⟨.canceled, none, none, .mute, .working (next (.failure .canceled))⟩ :=
  (Run.refl.step (.body (.miss rfl))).step (.body .forsake)

/-- Nobody has dropped a coroutine that can be resumed. -/
theorem Phase.idle_of_isResumable (h : Phase x rest) (hs : x.status.isResumable = true)
    (hx : x.holder = .idle ∨ x.holder = .mute) : x.holder = .idle := by
  refine hx.resolve_right fun hmute => ?_
  cases h with
  | ended ht | unwound ht | left ht | unheard ht => simp [Status.isResumable_eq, ht] at hs
  | droppedFresh | dropped | neverBegun | forsaken | unwinding => cases hs
  | _ => cases hmute

/-- A body works during a call, or after a drop. -/
theorem Phase.mute_of_isWorking (h : Phase x rest) (hw : x.body.isWorking = true)
    (hx : x.holder = .idle ∨ x.holder = .mute) : x.holder = .mute := by
  refine hx.resolve_left fun hidle => ?_
  cases h with
  | unwinding hh => cases hidle; cases hh
  | working => cases hidle
  | accepted _ hc | sent _ hc => cases hc <;> cases hw
  | _ => cases hw

end Exchange

namespace Machine

open Control Exchange

variable {P V σ : Type} {code : P → Entry V → Code P V σ V} {m m₁ m₂ m' : Machine P V σ}
  {i c d r : RoutineId} {a : Input V} {o : Outcome V (Parcel V)} {R : RegistryId → Prop}
  {x : Exchange (Option (Outcome V (Parcel V))) V}

/-- The machine depicts coroutine `c` at this point of its exchange with whoever holds it. -/
structure Depicts (m : Machine P V σ) (c : RoutineId)
    (x : Exchange (Option (Outcome V (Parcel V))) V) : Prop where
  status : x.status = m.status c
  inbox : x.inbox = (m.routine c).inbox.message?
  outbox : x.outbox = (m.routine c).outbox.message?
  body : x.body = (m.routine c).control.body
  holder : if m.isBusy c then x.holder = .listening else x.holder = .idle ∨ x.holder = .mute

/-- The change from one machine to another is a run of what they depict of coroutine `c`. -/
def Enacts (m m' : Machine P V σ) (c : RoutineId) : Prop :=
  ∀ ⦃x rest⦄, Phase x rest → m.Depicts c x → ∃ log y, Run .any x log y ∧ m'.Depicts c y

namespace Enacts

theorem trans (h : m.Enacts m₁ c) (h' : m₁.Enacts m' c) : m.Enacts m' c := by
  intro x rest hx hdepicts
  obtain ⟨log, y, hrun, hy⟩ := h hx hdepicts
  obtain ⟨-, rest', -, hphase⟩ := hrun.phase hx
  obtain ⟨log', z, hrun', hz⟩ := h' hphase hy
  exact ⟨log ++ log', z, hrun.trans hrun', hz⟩

/-- Nothing happens that concerns the coroutine, except that its body may go on by itself. -/
theorem of_similar (hstatus : (m'.routine c).status = (m.routine c).status)
    (hinbox : (m'.routine c).inbox = (m.routine c).inbox)
    (houtbox : (m'.routine c).outbox = (m.routine c).outbox)
    (hbody : (m'.routine c).control.body = (m.routine c).control.body ∨
      (m.routine c).control.body.isWorking = true ∧ (m'.routine c).control.body.isWorking = true) :
    m.Enacts m' c := by
  intro x rest _ hx
  have hrun : Run .any x [] { x with body := (m'.routine c).control.body } := by
    rw [← hx.body] at hbody
    obtain hsame | ⟨hw, hw'⟩ := hbody
    · rw [hsame]
      exact .refl
    · obtain ⟨s, i, o, k, f⟩ := x
      obtain ⟨t, rfl⟩ := Exchange.Body.exists_of_isWorking hw
      obtain ⟨t', ht'⟩ := Exchange.Body.exists_of_isWorking hw'
      rw [ht']
      exact Run.refl.step (.body (.work trivial))
  refine ⟨[], _, hrun, ?_⟩
  constructor
  case status => rw [hx.status, Machine.status, Machine.status, hstatus]
  case inbox => rw [hx.inbox, hinbox]
  case outbox => rw [hx.outbox, houtbox]
  case body => rfl
  case holder =>
    have hbusy : m'.isBusy c = m.isBusy c := by simp only [isBusy, houtbox]
    rw [hbusy]
    exact hx.holder

theorem of_routine (hr : m'.routine c = m.routine c) : m.Enacts m' c :=
  .of_similar (by rw [hr]) (by rw [hr]) (by rw [hr]) (.inl (by rw [hr]))

end Enacts

namespace Depicts

variable {s : Status} {k : Holder V} {f : Exchange.Body (Option (Outcome V (Parcel V))) V}

theorem eq (hx : m.Depicts c x) : x = ⟨m.status c, (m.routine c).inbox.message?,
    (m.routine c).outbox.message?, x.holder, (m.routine c).control.body⟩ := by
  rw [← hx.status, ← hx.inbox, ← hx.outbox, ← hx.body]

/-- A coroutine without messages to which nobody listens. -/
theorem of_empty (hs : m.status c = s) (hin : (m.routine c).inbox.message? = none)
    (hout : (m.routine c).outbox = .empty) (hf : (m.routine c).control.body = f)
    (hk : k = .idle ∨ k = .mute) : m.Depicts c ⟨s, none, none, k, f⟩ := by
  refine ⟨hs.symm, hin.symm, by rw [hout]; rfl, hf.symm, ?_⟩
  rw [isBusy, hout]
  exact hk

/-- A coroutine without messages to which a holder listens. -/
theorem of_awaited (hs : m.status c = s) (hin : (m.routine c).inbox.message? = none)
    (hout : (m.routine c).outbox = .awaited r) (hf : (m.routine c).control.body = f) :
    m.Depicts c ⟨s, none, none, .listening, f⟩ := by
  refine ⟨hs.symm, hin.symm, by rw [hout]; rfl, hf.symm, ?_⟩
  rw [isBusy, hout]
  rfl

end Depicts

section Operations

variable (h : m.Orderly)
include h

theorem Orderly.inbox_message? (c : RoutineId) : (m.routine c).inbox.message? = none := by
  cases hin : (m.routine c).inbox with
  | full a => exact absurd hin ((h.tidy.slotted c).inbox a)
  | _ => rfl

/-- What a machine depicts of a coroutine in whose outbox nobody waits. -/
theorem Orderly.depicts_empty (hx : m.Depicts c x) (hout : (m.routine c).outbox = .empty) :
    x = ⟨m.status c, none, none, x.holder, (m.routine c).control.body⟩ ∧
      (x.holder = .idle ∨ x.holder = .mute) := by
  have heq := hx.eq
  have hholder := hx.holder
  rw [h.inbox_message?, hout] at heq
  rw [isBusy, hout] at hholder
  exact ⟨heq, hholder⟩

/-- What a machine depicts of a coroutine to which a holder listens. -/
theorem Orderly.depicts_awaited (hx : m.Depicts c x) (hout : (m.routine c).outbox = .awaited r) :
    x = ⟨m.status c, none, none, .listening, (m.routine c).control.body⟩ := by
  have heq := hx.eq
  have hholder := hx.holder
  rw [isBusy, hout] at hholder
  rwa [h.inbox_message?, hout, show x.holder = .listening from hholder] at heq

/-- What a machine depicts of a coroutine that can be resumed. -/
theorem Orderly.depicts_isResumable (hc : (m.status c).isResumable = true) {rest : List (Event V)}
    (hphase : Phase x rest) (hx : m.Depicts c x) :
    x = ⟨m.status c, none, none, .idle, (m.routine c).control.body⟩ := by
  obtain ⟨heq, hholder⟩ := h.depicts_empty hx ((h.tidy.slotted c).resumable hc).2
  rwa [hphase.idle_of_isResumable (by rwa [hx.status]) hholder] at heq

theorem Orderly.enacts_close (c d : RoutineId) : m.Enacts (m.close d).2 c := by
  by_cases hin : ∀ r, (m.routine d).inbox ≠ .awaited r
  · rw [close_eq h.tidy hin]
    exact .of_routine rfl
  · obtain ⟨r, hin⟩ : ∃ r, (m.routine d).inbox = .awaited r := by simpa using hin
    obtain ⟨rfl, hd⟩ := h.of_awaited hin
    have hr := routine_close h.tidy hin c
    by_cases hcr : c = r
    -- The holder drops the coroutine, and the body finds that out at once.
    · subst hcr
      intro x rest hphase hx
      rw [h.depicts_isResumable hd hphase hx]
      have hout := ((h.tidy.slotted c).resumable hd).2
      have hdepicts : ∀ f, ((m.routine c).control.take .cancel).body = f →
          (m.close c).2.Depicts c ⟨.canceled, none, none, .mute, f⟩ := fun f hf =>
        .of_empty (by simp [Machine.status, hr, closed]) (by simp [hr, closed, Slot.message?])
          (by simp [hr, closed, hout]) (by simp [hr, closed, hf]) (.inr rfl)
      obtain ⟨-, ⟨-, s, hf⟩ | ⟨-, hread⟩⟩ := h.resumable hd
      · rw [hf] at hdepicts ⊢
        exact ⟨_, _, (run_drop hd _).step (.body (.droppedEarly rfl)), hdepicts _ rfl⟩
      · rw [hread] at hdepicts ⊢
        exact ⟨_, _, (run_drop hd _).trans (run_miss _), hdepicts _ rfl⟩
    · apply Enacts.of_similar <;> simp [hr, closed, hcr]

theorem Orderly.enacts_finish (hc : (m.routine i).control = .returning o) (c : RoutineId) :
    m.Enacts (m.finish i o) c := by
  have hi : (m.routine i).control.isActive = true := by rw [hc]; rfl
  have hr := routine_finish h.tidy hi o c
  by_cases hci : c = i
  · subst hci
    intro x rest hphase hx
    have hstatus : (m.finish c o).status c = o.ending (m.status c) := by
      simp [Machine.status, hr, finished]
    have hin : ((m.finish c o).routine c).inbox.message? = none := by
      simpa [hr, finished] using h.inbox_message? c
    have hended : ((m.finish c o).routine c).control.body = .ended := by
      simp [hr, finished, Control.body]
    have hbody : (m.routine c).control.body = .working (some o) := by rw [hc]; rfl
    cases hout : (m.routine c).outbox with
    | awaited l =>
      rw [h.depicts_awaited hx hout, hbody]
      have hempty : ((m.finish c o).routine c).outbox = .empty := by
        simp [hr, finished, hout, Slot.sent]
      exact ⟨_, _, run_finish rfl, .of_empty hstatus hin hempty hended (.inl rfl)⟩
    | empty =>
      -- Nobody listens to a body that works: its coroutine was dropped.
      obtain ⟨heq, hholder⟩ := h.depicts_empty hx hout
      have hmute := hphase.mute_of_isWorking (by rw [hx.body, hbody]; rfl) hholder
      have hfull : ((m.finish c o).routine c).outbox = .full o := by
        simp [hr, finished, hout, Slot.sent]
      rw [heq, hmute, hbody]
      refine ⟨_, _, run_leave (o := o) rfl, hstatus.symm, hin.symm, ?_, hended.symm, ?_⟩
      · rw [hfull]
        rfl
      · rw [isBusy, hfull]
        exact .inr rfl
    | full o' => exact absurd ((h.tidy.slotted c).outbox o' hout) (ne_ended_of_isActive hi)
  · refine .of_similar ?_ ?_ ?_ ?_ <;> simp only [hr, finished, if_neg hci]
    split_ifs with hcl hcj
    · rw [(h.tidy.listener i c).1 (Slot.reader?_eq_some.1 hcl)]
      exact .inr ⟨rfl, rfl⟩
    · exact similar_awoken _
    · exact .inl rfl

variable (hi : (m.routine i).control.isActive = true)
include hi

theorem Orderly.enacts_handOver (hd : (m.status d).isResumable = true)
    (ha : a = .cancel → m.status d = .suspending) (c : RoutineId) :
    m.Enacts (m.handOver i d a.accepted a) c := by
  obtain ⟨hin, hdoing⟩ := h.resumable hd
  have hr := routine_handOver h.tidy hi hd hin a.accepted a c
  have hdi := h.tidy.ne_reader hi hin
  by_cases hcd : c = d
  -- The reader takes the input in the same step.
  · subst hcd
    intro x rest hphase hx
    rw [h.depicts_isResumable hd hphase hx]
    have hexpects : (m.routine c).control.body.Expects a ∧
        ((m.routine c).control.take a).body = (m.routine c).control.body.after .any a := by
      obtain ⟨hst, s, hf⟩ | ⟨-, hread⟩ := hdoing
      · rw [hf]
        cases a with
        | parcel p => exact ⟨.first p, rfl⟩
        | cancel => cases hst.symm.trans (ha rfl)
      · rw [hread]
        exact ⟨.next _ a, by cases a <;> rfl⟩
    refine ⟨_, _, run_call hd ha hexpects.1, .of_awaited (r := i) ?_ ?_ ?_ ?_⟩ <;>
      simp [Machine.status, hr, handedOver, hdi, hexpects.2, Slot.message?]
  · refine .of_similar ?_ ?_ ?_ ?_ <;> simp only [hr, handedOver, if_neg hcd]
    split_ifs with hci
    -- The holder works while it waits.
    · exact .inr ⟨isWorking_of_isActive (hci ▸ hi), rfl⟩
    · exact .inl rfl

theorem Orderly.enacts_yield (hi' : m.status i = .running) (hmain : i ≠ .main) (p : Parcel V) (c : RoutineId) :
    m.Enacts (m.yield i i p) c := by
  obtain ⟨l, hout⟩ := h.tidy.exists_listener hi' hmain
  have hr := routine_yield h.tidy hi hi' hout p c
  have hli := h.tidy.ne_listener hi hout
  by_cases hci : c = i
  · subst hci
    intro x rest _ hx
    obtain ⟨t, ht⟩ := Exchange.Body.exists_of_isWorking (isWorking_of_isActive hi)
    rw [h.depicts_awaited hx hout, hi', ht]
    refine ⟨_, _, run_yield (p := p) some rfl, .of_empty ?_ ?_ ?_ ?_ (.inl rfl)⟩ <;>
      simp [Machine.status, hr, handedOut, Slot.message?, Control.body]
  · refine .of_similar ?_ ?_ ?_ ?_ <;> simp only [hr, handedOut, if_neg hci]
    split_ifs with hcl
    -- The listener works before and after it hears.
    · rw [hcl, (h.tidy.listener i l).1 hout]
      exact .inr ⟨rfl, rfl⟩
    · exact .inl rfl

end Operations

theorem enacts_setControl (hi : (m.routine i).control.isActive = true) {k : Control P V σ}
    (hk : k.isActive = true) (c : RoutineId) : m.Enacts (m.setControl i k) c := by
  have hr : (m.setControl i k).routine c = _ := routine_update_ite (lt_of_isActive hi) ..
  by_cases hci : c = i
  · subst hci
    refine .of_similar ?_ ?_ ?_ ?_ <;> simp [hr, isWorking_of_isActive hi, isWorking_of_isActive hk]
  · exact .of_routine (by rw [hr, if_neg hci])

theorem enacts_join (hi : (m.routine i).control.isActive = true) (hd : (m.routine d).control ≠ .ended)
    (answer : V) (c : RoutineId) : m.Enacts (m.join i d answer) c := by
  have hr := routine_join hi hd answer c
  refine .of_similar ?_ ?_ ?_ ?_ <;> simp only [hr, joined]
  split_ifs with hci
  · exact .inr ⟨isWorking_of_isActive (hci ▸ hi), rfl⟩
  · exact .inl rfl

/-! ## Steps and runs -/

/-- The arrangements before a step are runs of what was there before. -/
theorem Arranges.enacts (ha : Arranges R i m m₁) (h : m.Orderly) (hi : (m.routine i).control.isActive = true)
    (hc : c.val < m.routines.size) : m.Enacts m₁ c := by
  induction ha with
  | refl => exact .of_routine rfl
  | inward _ hq _ ih =>
    exact ih.trans (.of_similar (hq.status c) (hq.inbox c) (hq.outbox c) (.inl (by rw [hq.control])))
  | @grows m₁ hrest y _ ih =>
    have hsize := (hrest.arranged h hi).size
    exact ih.trans (.of_routine (routine_grow_of_lt (hc.trans_le hsize)))
  | closes hrest d ih => exact ih.trans ((hrest.arranged h hi).orderly.enacts_close c d)

theorem Transfers.enacts (htr : m.Transfers i m') (h : m.Orderly) (hi : (m.routine i).control.isActive = true)
    (hown : ∀ c, m.status c = .running →
      (c = i ∨ ∃ v next, (m.routine i).control = .running (.act (.yield c v) next)) → c = i)
    (c : RoutineId) : m.Enacts m' c := by
  cases htr with
  | goes hd => exact enacts_setControl hi hd c
  | resumes p hd => exact h.enacts_handOver hi (a := .parcel p) hd nofun c
  | cancels hd => exact h.enacts_handOver hi (a := .cancel) (by rw [hd]; rfl) (fun _ => hd) c
  | @disposes d r answer hin hmain hd =>
    exact (h.enacts_close c d).trans (enacts_join (h.tidy.isActive_close hi hin) hd answer c)
  | yields p hd hmain hyield =>
    obtain rfl := hown _ hd hyield
    exact h.enacts_yield hi hd hmain p c

theorem Passes.enacts (hp : m.Passes R i m') (h : m.Orderly) (hi : (m.routine i).control.isActive = true)
    (hown : m.yieldsOwn = true) {ready : List RoutineId} (hready : m.ready = i :: ready)
    (hc : c.val < m.routines.size) : m.Enacts m' c := by
  cases hp with
  | ends hc => exact h.enacts_finish hc c
  | transfers ha htr =>
    have har := ha.arranged h hi
    exact (ha.enacts h hi hc).trans
      (htr.enacts har.orderly (har.own ▸ hi) (fun _ => har.yields_own hown hready) c)

theorem Orderly.enacts_step (h : m.Orderly) (hown : m.yieldsOwn = true) (hs : m.step code = some m')
    (hc : c.val < m.routines.size) : m.Enacts m' c := by
  obtain ⟨i, ready, hready, ⟨hi, hp, -⟩ | ⟨-, rfl⟩⟩ := h.tidy.step_cases hs
  · exact hp.enacts h hi hown hready hc
  · exact .of_routine rfl

/-- As long as bodies hand out through themselves, a machine enacts an exchange for each coroutine. -/
theorem ReachesUnder.enacts (h : ReachesOwn code m m') (hm : m.Orderly) (hsound : m.Sound)
    (hc : c.val < m.routines.size) : m.Enacts m' c := by
  induction h with
  | refl => exact .of_routine rfl
  | step hown hs _ ih =>
    exact (hm.enacts_step hown hs hc).trans
      (ih (hm.step hown hs) (hsound.step hs) (hc.trans_le (hsound.size_step hs)))
  | turn _ ih =>
    exact .trans (.of_routine (routine_passTurn _ c))
      (ih hm.passTurn hsound.passTurn (by rwa [size_passTurn]))

/-- A coroutine that waits for its first input is at the beginning of its exchange. -/
theorem Orderly.depicts_initial (h : m.Orderly) {s : Start P V} (hc : (m.routine c).control = .fresh s) :
    m.Depicts c .initial := by
  have hstatus : m.status c = .notRunning := (h.tidy.slotted c).fresh.2 (by rw [hc]; rfl)
  exact .of_empty hstatus (h.inbox_message? c) ((h.tidy.slotted c).resumable (by rw [← status, hstatus]; rfl)).2
    (by rw [hc]; rfl) (.inl rfl)

/-- The messages of a coroutine and its holder alternate, whatever the body does and however the steps of the
two sides mix. As long as bodies hand out through themselves, what a machine does with a coroutine, from the
moment that it is made, is such an exchange. -/
theorem messages_alternate {S : Type} (b : Behavior S V) (code : P → Entry V → Code P V σ V) (store : σ)
    (c₀ : Code P V σ V) :
    (∀ log x, Run b .initial log x → Alternates b log x) ∧
      ∀ m m' c s, ReachesOwn code (initial store c₀) m → (m.routine c).control = .fresh s →
        ReachesOwn code m m' →
          ∃ log x, Run .any .initial log x ∧ Alternates .any log x ∧ m'.Depicts c x := by
  refine ⟨fun _ _ h => h.alternates, fun m m' c s hm hc h => ?_⟩
  have horderly : m.Orderly := hm.orderly (fun _ _ => id) (orderly_initial store c₀)
  have hlt : c.val < m.routines.size := lt_of_ne_ended (by simp [hc])
  obtain ⟨log, x, hrun, hx⟩ := h.enacts horderly hm.reaches.sound hlt .new (horderly.depicts_initial hc)
  exact ⟨log, x, hrun, hrun.alternates, hx⟩

/-! A body that hands out its input and is dropped. -/

/-- Hands out every value that comes in, and ends with anything else. -/
def returning : Behavior (Outcome Nat (Parcel Nat)) Nat where
  enter := .value
  may
    | .value p, next => next = .yields p id
    | o, next => next = .ends o

/-- Hands out its input, and ends with it. -/
def handsBack : Unit → Entry Nat → Code Unit Nat Unit Nat
  | _, .start v self => .act (.yield self v) fun _ => .pure v
  | _, _ => .pure 0

/-- Makes a coroutine, resumes it once and gives it up. -/
def givesUpEarly : Code Unit Nat Unit Nat :=
  .ask (.spawn .standard ()) fun c => .act (.resume c 7) fun _ => .ask (.abandon c) fun _ => .pure 0

/-- In the exchange the holder lets go of the outbox before the body sends its last output; in the machine
that output stays in the outbox. -/
theorem messages_alternate_givesUpEarly :
    (∃ log x, Run returning .initial log x ∧ x.holder = .gone ∧
      log = round (.parcel (.plain 7)) (.value (.plain 7)) ++ [.missed, .unheard (.failure .canceled)] ∧
      Alternates returning log x) ∧
    ∃ m m' s, ReachesOwn handsBack (initial () givesUpEarly) m ∧ (m.routine ⟨1⟩).control = .fresh s ∧
      ReachesOwn handsBack m m' ∧ (m'.routine ⟨1⟩).outbox = .full (.value (.plain 7)) ∧
      ∃ log x, Run .any .initial log x ∧ Alternates .any log x ∧ m'.Depicts ⟨1⟩ x := by
  obtain ⟨halternates, hdepicts⟩ := messages_alternate returning handsBack () givesUpEarly
  refine ⟨?_, ?_⟩
  · have hcalled : Run returning .initial [.sent (.parcel (.plain 7)), .taken (.parcel (.plain 7))]
        ⟨.running, none, none, .listening, .working (.value (.plain 7))⟩ :=
      ((Run.refl.step (.holder (.resume (.plain 7) rfl))).step (.holder .send)).step (.body .begin)
    have hdropped := ((hcalled.trans (run_yield (p := .plain 7) id rfl)).trans
      (run_drop rfl (.reading id))).trans (run_miss id)
    have hended := ((hdropped.step (.holder .leave)).step (.body (.finish rfl))).step (.body .closeUnheard)
    exact ⟨_, _, hended, rfl, rfl, halternates _ _ hended⟩
  · have hrule : ∀ m m' : Machine Unit Nat Unit, m.yieldsOwn = true → m.yieldsOwn = true := fun _ _ => id
    refine ⟨_, _, _, .of_runUnder 1 hrule rfl, rfl, .of_runUnder 10 hrule rfl, rfl, ?_⟩
    exact hdepicts _ _ _ _ (.of_runUnder 1 hrule rfl) rfl (.of_runUnder 10 hrule rfl)

end Machine

end OneShot
