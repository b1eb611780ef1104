import OneShot.Proofs.Ending
import OneShot.Proofs.Slots

/-!
# A coroutine and its holder, step by step

A resume, a cancellation, a drop and a yield each consist of several steps: the status is looked at and
changes, a message is sent, another one is received. Holder and body run on lines of execution of their own,
so between two steps of the one there may be steps of the other. An `Exchange` is one coroutine in the hands
of one holder at such a moment, with the place in its operation that each of the two has come to. `Step` lists
the steps, each of which looks at the status or uses one channel once, and `Run` lets the two sides take turns
in any way.

The inbox has room for one input and the outbox for one output. A send waits until there is room, and a
receive until there is a message, or until the other end of the channel is gone. The body's ends stay as long
as the coroutine itself; the holder's ends go, one after the other, when the coroutine is dropped.

`Phase` is the invariant: it lists how far the two sides can have come together, with the messages since the
last complete round of a call. `Phase.step` says that steps keep it, and `Run.phase` that runs do.
-/

namespace OneShot

/-- What a body does next. -/
inductive Move (S V : Type) where
  /-- It goes on by itself. -/
  | works (s : S)
  /-- It hands out an output, and goes on with what the yield comes back with. -/
  | yields (p : Parcel V) (next : Outcome V (Parcel V) → S)
  | ends (o : Outcome V (Parcel V))

/-- A body: the states it can be in, and what it may do in each of them. What it does may depend on anything
that goes on outside. -/
structure Behavior (S V : Type) where
  /-- Where the first input brings it. -/
  enter : Parcel V → S
  may : S → Move S V → Prop

/-- The status that a call with this input leaves when it is accepted. -/
def Input.accepted {V : Type} : Input V → Status
  | .parcel _ => .running
  | .cancel => .canceled

/-- The body of which nothing is known but what it has in hand: what it was given last, and what it ends with.
It may put that down and take up something else at any time. -/
def Behavior.any {V : Type} : Behavior (Option (Outcome V (Parcel V))) V where
  enter p := some (.value p)
  may
    | _, .works _ => True
    | _, .yields _ next => next = some
    | hand, .ends o => hand = some o

namespace Exchange

/-- Where the holder of a coroutine is. -/
inductive Holder (V : Type) where
  /-- In no call. -/
  | idle
  /-- In a call that was accepted, and whose input is still to be sent. -/
  | sending (a : Input V)
  /-- In the same call, after the input. -/
  | listening
  /-- It has heard of a panic, which goes on after the status has changed. -/
  | panicking (payload : V)
  /-- It drops the coroutine; the status says so already. -/
  | dropping
  /-- Its end of the inbox is gone. -/
  | mute
  /-- Its end of the outbox is gone, too. -/
  | gone

namespace Holder

variable {V : Type}

/-- Whether an accepted call has not heard its output yet. -/
def inCall : Holder V → Bool
  | .sending _ | .listening => true
  | _ => false

/-- Whether the coroutine has been dropped. -/
def hasDropped : Holder V → Bool
  | .dropping | .mute | .gone => true
  | _ => false

/-- Whether nothing will ever come into the inbox. -/
def isMute : Holder V → Bool
  | .mute | .gone => true
  | _ => false

/-- Where an output brings it. -/
def told : Outcome V (Parcel V) → Holder V
  | .panic p => .panicking p
  | _ => .idle

theorem hasDropped_of_isMute {h : Holder V} (hh : h.isMute = true) : h.hasDropped = true := by
  cases h <;> first | rfl | cases hh

theorem inCall_of_hasDropped {h : Holder V} (hh : h.hasDropped = true) : h.inCall = false := by
  cases h <;> first | rfl | cases hh

@[simp] theorem inCall_told (o : Outcome V (Parcel V)) : (told o).inCall = false := by
  cases o <;> rfl

end Holder

/-- Where the body of a coroutine is. -/
inductive Body (S V : Type) where
  /-- It waits for its first input. -/
  | fresh
  | working (s : S)
  /-- In a yield that was accepted, and whose output is still to be sent. -/
  | giving (p : Parcel V) (next : Outcome V (Parcel V) → S)
  /-- In the same yield, after the output. -/
  | reading (next : Outcome V (Parcel V) → S)
  /-- In a yield that has found nobody at the other end. -/
  | forsaken (next : Outcome V (Parcel V) → S)
  /-- It has ended, and the status says so already; the outcome is still to be sent. -/
  | closing (o : Outcome V (Parcel V))
  | ended

namespace Body

variable {S V : Type}

/-- The message that is still to be sent. -/
def message? : Body S V → Option (Outcome V (Parcel V))
  | .giving p _ => some (.value p)
  | .closing o => some o
  | _ => none

/-- Whether it goes on by itself. -/
def isWorking : Body S V → Bool
  | .working _ => true
  | _ => false

theorem exists_of_isWorking {c : Body S V} (h : c.isWorking = true) : ∃ t, c = .working t := by
  cases c <;> first | exact ⟨_, rfl⟩ | cases h

end Body

end Exchange

/-- A coroutine, its holder and its body, with the messages that are on their way. -/
structure Exchange (S V : Type) where
  status : Status
  inbox : Option (Input V)
  outbox : Option (Outcome V (Parcel V))
  holder : Exchange.Holder V
  body : Exchange.Body S V

namespace Exchange

variable {S V : Type} {b : Behavior S V} {x y z : Exchange S V}

/-- A coroutine that was just made. -/
def initial : Exchange S V := ⟨.notRunning, none, none, .idle, .fresh⟩

/-- The use of a channel. -/
inductive Event (V : Type) where
  /-- The holder sends an input. -/
  | sent (a : Input V)
  /-- The body receives it. -/
  | taken (a : Input V)
  /-- The body sends an output. -/
  | given (o : Outcome V (Parcel V))
  /-- The holder receives it. -/
  | heard (o : Outcome V (Parcel V))
  /-- The body finds that there will be no more input. -/
  | missed
  /-- The body finds that nobody will receive its output. -/
  | unheard (o : Outcome V (Parcel V))

/-- One step of the holder, and how it uses a channel. -/
inductive HolderStep : Exchange S V → Option (Event V) → Exchange S V → Prop where
  /-- A resume is accepted. -/
  | resume (p : Parcel V) {s i o c} (hs : s.isResumable = true) :
    HolderStep ⟨s, i, o, .idle, c⟩ none ⟨.running, i, o, .sending (.parcel p), c⟩
  | resumeRefused {s i o c} (hs : s.isResumable = false) :
    HolderStep ⟨s, i, o, .idle, c⟩ none ⟨s, i, o, .idle, c⟩
  /-- A cancellation is accepted. -/
  | cancel {s i o c} (hs : s = .suspending) :
    HolderStep ⟨s, i, o, .idle, c⟩ none ⟨.canceled, i, o, .sending .cancel, c⟩
  | cancelRefused {s i o c} (hs : s ≠ .suspending) :
    HolderStep ⟨s, i, o, .idle, c⟩ none ⟨s, i, o, .idle, c⟩
  | send {s a o c} :
    HolderStep ⟨s, none, o, .sending a, c⟩ (some (.sent a)) ⟨s, some a, o, .listening, c⟩
  | hear {s i o c} :
    HolderStep ⟨s, i, some o, .listening, c⟩ (some (.heard o)) ⟨s, i, none, .told o, c⟩
  /-- The panic goes on. -/
  | panic {s i o p c} : HolderStep ⟨s, i, o, .panicking p, c⟩ none ⟨.panicked, i, o, .idle, c⟩
  | drop {s i o c} :
    HolderStep ⟨s, i, o, .idle, c⟩ none ⟨if s.isResumable then .canceled else s, i, o, .dropping, c⟩
  /-- The holder's end of the inbox goes. -/
  | hangUp {s i o c} : HolderStep ⟨s, i, o, .dropping, c⟩ none ⟨s, i, o, .mute, c⟩
  /-- The holder's end of the outbox goes. -/
  | leave {s i o c} : HolderStep ⟨s, i, o, .mute, c⟩ none ⟨s, i, o, .gone, c⟩

/-- One step of the body, and how it uses a channel. -/
inductive BodyStep (b : Behavior S V) : Exchange S V → Option (Event V) → Exchange S V → Prop where
  | begin {s p o h} : BodyStep b ⟨s, some (.parcel p), o, h, .fresh⟩ (some (.taken (.parcel p)))
    ⟨s, none, o, h, .working (b.enter p)⟩
  /-- A body that is canceled before it begins ends without an outcome. -/
  | canceledEarly {s o h} :
    BodyStep b ⟨s, some .cancel, o, h, .fresh⟩ (some (.taken .cancel)) ⟨s, none, o, h, .ended⟩
  | droppedEarly {s o h} (hh : h.isMute = true) :
    BodyStep b ⟨s, none, o, h, .fresh⟩ (some .missed) ⟨s, none, o, h, .ended⟩
  | work {s i o h t t'} (hb : b.may t (.works t')) :
    BodyStep b ⟨s, i, o, h, .working t⟩ none ⟨s, i, o, h, .working t'⟩
  /-- A yield is accepted. -/
  | yield {s i o h t p next} (hb : b.may t (.yields p next)) (hs : s = .running) :
    BodyStep b ⟨s, i, o, h, .working t⟩ none ⟨.suspending, i, o, h, .giving p next⟩
  | yieldRefused {s i o h t p next} (hb : b.may t (.yields p next)) (hs : s ≠ .running) :
    BodyStep b ⟨s, i, o, h, .working t⟩ none
      ⟨s, i, o, h, .working (next (.failure (if s = .canceled then .canceled else .cannotYield s)))⟩
  | give {s i h p next} (hh : h ≠ .gone) : BodyStep b ⟨s, i, none, h, .giving p next⟩
    (some (.given (.value p))) ⟨s, i, some (.value p), h, .reading next⟩
  | giveUnheard {s i o p next} : BodyStep b ⟨s, i, o, .gone, .giving p next⟩
    (some (.unheard (.value p))) ⟨s, i, o, .gone, .forsaken next⟩
  | take {s a o h next} : BodyStep b ⟨s, some a, o, h, .reading next⟩ (some (.taken a))
    ⟨s, none, o, h, .working (next a.outcome)⟩
  | miss {s o h next} (hh : h.isMute = true) :
    BodyStep b ⟨s, none, o, h, .reading next⟩ (some .missed) ⟨s, none, o, h, .forsaken next⟩
  /-- The body marks its coroutine as canceled, and its yield fails. -/
  | forsake {s i o h next} : BodyStep b ⟨s, i, o, h, .forsaken next⟩ none
    ⟨.canceled, i, o, h, .working (next (.failure .canceled))⟩
  | finish {s i o h t r} (hb : b.may t (.ends r)) :
    BodyStep b ⟨s, i, o, h, .working t⟩ none ⟨r.ending s, i, o, h, .closing r⟩
  | close {s i h r} (hh : h ≠ .gone) :
    BodyStep b ⟨s, i, none, h, .closing r⟩ (some (.given r)) ⟨s, i, some r, h, .ended⟩
  | closeUnheard {s i o r} :
    BodyStep b ⟨s, i, o, .gone, .closing r⟩ (some (.unheard r)) ⟨s, i, o, .gone, .ended⟩

/-- One step of either side. -/
inductive Step (b : Behavior S V) (x : Exchange S V) (e : Option (Event V)) (y : Exchange S V) : Prop where
  | holder (h : HolderStep x e y)
  | body (h : BodyStep b x e y)

/-- The two sides take turns in any way; how the channels were used on the way. -/
inductive Run (b : Behavior S V) (x : Exchange S V) : List (Event V) → Exchange S V → Prop where
  | refl : Run b x [] x
  | step {log : List (Event V)} {y z : Exchange S V} {e : Option (Event V)} (h : Run b x log y)
    (hs : Step b y e z) : Run b x (log ++ e.toList) z

/-- The two sides take turns for ever, or until neither of them can make a step. -/
def IsFull (b : Behavior S V) (f : Nat → Exchange S V) : Prop :=
  ∀ n, (∃ e, Step b (f n) e (f (n + 1))) ∨ f (n + 1) = f n ∧ ∀ e y, ¬ Step b (f n) e y

/-- The next step can only be this use of a channel, and it can be made. -/
def OnlyNext (b : Behavior S V) (x : Exchange S V) (e : Event V) : Prop :=
  (∃ y, Step b x (some e) y) ∧ ∀ e' y, Step b x e' y → e' = some e

/-- The messages of an accepted call: its input comes to the body, which sends one output, and this comes to
the holder. -/
def round (a : Input V) (o : Outcome V (Parcel V)) : List (Event V) :=
  [.sent a, .taken a, .given o, .heard o]

/-! ## The phases of an exchange -/

/-- The body waits for an input, and knows what to do with it. -/
inductive Body.Expects : Body S V → Input V → Prop where
  | first (p : Parcel V) : Expects .fresh (.parcel p)
  | next (k : Outcome V (Parcel V) → S) (a : Input V) : Expects (.reading k) a

/-- Where an input brings a body that expects it. -/
def Body.after (b : Behavior S V) : Body S V → Input V → Body S V
  | .fresh, .parcel p => .working (b.enter p)
  | .reading k, a => .working (k a.outcome)
  | c, _ => c

variable {log log' rest : List (Event V)} {e : Option (Event V)} {a : Input V}

namespace Body.Expects

variable {s : Status} {c : Body S V}

/-- A body that expects the input can receive it. -/
theorem step_taken (hc : c.Expects a) (s : Status) : Step b ⟨s, some a, none, .listening, c⟩ (some (.taken a))
    ⟨s, none, none, .listening, c.after b a⟩ := by
  cases hc with
  | first p => exact .body .begin
  | next k => exact .body .take

/-- While the body waits for an input that is about to be sent, nothing else can happen. -/
theorem of_sending (hc : c.Expects a) (hs : Step b ⟨s, none, none, .sending a, c⟩ e y) :
    e = some (.sent a) ∧ y = ⟨s, some a, none, .listening, c⟩ := by
  cases hs with
  | holder hs => cases hs with | send => exact ⟨rfl, rfl⟩
  -- The holder's end of the inbox is still there, so the body cannot miss its input.
  | body hs => cases hc <;> cases hs <;> contradiction

/-- While the input is in the inbox, it is received before anything else happens. -/
theorem of_sent (hc : c.Expects a) (hs : Step b ⟨s, some a, none, .listening, c⟩ e y) :
    e = some (.taken a) ∧ y = ⟨s, none, none, .listening, c.after b a⟩ := by
  cases hs with
  | holder hs => cases hs
  | body hs => cases hc <;> cases hs <;> exact ⟨rfl, rfl⟩

end Body.Expects

/-- How far an exchange has come: the status, the slots and the places of the two sides fit together, and to
the messages since the last complete round. -/
inductive Phase : Exchange S V → List (Event V) → Prop where
  | new : Phase ⟨.notRunning, none, none, .idle, .fresh⟩ []
  | suspended {next} : Phase ⟨.suspending, none, none, .idle, .reading next⟩ []
  /-- The status has changed already, but the input is not there yet. -/
  | accepted {s a c} (hs : s = a.accepted) (hc : c.Expects a) : Phase ⟨s, none, none, .sending a, c⟩ []
  | sent {s a c} (hs : s = a.accepted) (hc : c.Expects a) : Phase ⟨s, some a, none, .listening, c⟩ [.sent a]
  | working {s a t} (hs : s = a.accepted) :
    Phase ⟨s, none, none, .listening, .working t⟩ [.sent a, .taken a]
  /-- The status has changed already, but the output is not there yet. -/
  | giving {a p next} : Phase ⟨.suspending, none, none, .listening, .giving p next⟩ [.sent a, .taken a]
  | given {a p next} : Phase ⟨.suspending, none, some (.value p), .listening, .reading next⟩
    [.sent a, .taken a, .given (.value p)]
  | closing {s a o} (hs : s.isTerminal = true) :
    Phase ⟨s, none, none, .listening, .closing o⟩ [.sent a, .taken a]
  | closed {s a o} (hs : s.isTerminal = true) :
    Phase ⟨s, none, some o, .listening, .ended⟩ [.sent a, .taken a, .given o]
  | ended {s h} (hs : s.isTerminal = true) (hh : h.inCall = false) : Phase ⟨s, none, none, h, .ended⟩ []
  -- After a drop.
  | droppedFresh {h} (hh : h.hasDropped = true) : Phase ⟨.canceled, none, none, h, .fresh⟩ []
  | dropped {h next} (hh : h.hasDropped = true) : Phase ⟨.canceled, none, none, h, .reading next⟩ []
  | neverBegun {h} (hh : h.isMute = true) : Phase ⟨.canceled, none, none, h, .ended⟩ [.missed]
  | forsaken {h next} (hh : h.isMute = true) : Phase ⟨.canceled, none, none, h, .forsaken next⟩ [.missed]
  | unwinding {h t} (hh : h.isMute = true) : Phase ⟨.canceled, none, none, h, .working t⟩ [.missed]
  | unwound {s h o} (hs : s.isTerminal = true) (hh : h.isMute = true) :
    Phase ⟨s, none, none, h, .closing o⟩ [.missed]
  /-- The last output stays where it is. -/
  | left {s h o} (hs : s.isTerminal = true) (hh : h.isMute = true) :
    Phase ⟨s, none, some o, h, .ended⟩ [.missed, .given o]
  | unheard {s h o} (hs : s.isTerminal = true) (hh : h.isMute = true) :
    Phase ⟨s, none, none, h, .ended⟩ [.missed, .unheard o]

/-- A holder that has dropped its coroutine only lets go of its ends. -/
theorem HolderStep.of_hasDropped (hs : HolderStep x e y) (hx : x.holder.hasDropped = true) :
    e = none ∧ ∃ h, h.isMute = true ∧ y = { x with holder := h } := by
  cases hs with
  | hangUp => exact ⟨rfl, _, rfl, rfl⟩
  | leave => exact ⟨rfl, _, rfl, rfl⟩
  | _ => cases hx

/-- The phase stays the same when the holder lets go. -/
theorem Phase.mute (h : Phase x rest) (hx : x.holder.hasDropped = true) {g : Holder V}
    (hg : g.isMute = true) : Phase { x with holder := g } rest := by
  have hdropped := Holder.hasDropped_of_isMute hg
  cases h with
  | ended hs => exact .ended hs (Holder.inCall_of_hasDropped hdropped)
  | droppedFresh => exact .droppedFresh hdropped
  | dropped => exact .dropped hdropped
  | neverBegun => exact .neverBegun hg
  | forsaken => exact .forsaken hg
  | unwinding => exact .unwinding hg
  | unwound hs => exact .unwound hs hg
  | left hs => exact .left hs hg
  | unheard hs => exact .unheard hs hg
  | _ => cases hx

/-- A step of the holder leads to a phase, with one use of a channel more or with a complete round. -/
theorem HolderStep.phase (hs : HolderStep x e y) (h : Phase x rest) :
    Phase y (rest ++ e.toList) ∨ ∃ a o, rest ++ e.toList = round a o ∧ Phase y [] := by
  by_cases hx : x.holder.hasDropped = true
  · obtain ⟨rfl, g, hg, rfl⟩ := hs.of_hasDropped hx
    exact .inl (by simpa using h.mute hx hg)
  -- Before a drop, the phase says where the holder is, and so which steps it can make.
  cases h with
  | new =>
    cases hs with
    | resume p => exact .inl (.accepted rfl (.first p))
    | resumeRefused hs => cases hs
    | cancel hs => cases hs
    | cancelRefused => exact .inl .new
    | drop => exact .inl (.droppedFresh rfl)
  | suspended =>
    cases hs with
    | resume p => exact .inl (.accepted rfl (.next _ _))
    | resumeRefused hs => cases hs
    | cancel => exact .inl (.accepted rfl (.next _ _))
    | cancelRefused hs => exact absurd rfl hs
    | drop => exact .inl (.dropped rfl)
  | accepted hstatus hc =>
    cases hs with
    | send => exact .inl (.sent hstatus hc)
  -- While the outbox is empty, a holder that listens can only wait.
  | sent | working | giving | closing => cases hs
  | @given a p =>
    cases hs with
    | hear => exact .inr ⟨a, .value p, rfl, .suspended⟩
  | @closed s a o hstatus =>
    cases hs with
    | hear => exact .inr ⟨a, o, rfl, .ended hstatus (by simp)⟩
  | @ended s h hstatus hh =>
    cases hs with
    | resume p hs => cases s <;> cases hstatus <;> cases hs
    | resumeRefused | cancelRefused => exact .inl (.ended hstatus rfl)
    | cancel hs => subst hs; cases hstatus
    | send => cases hh
    | panic => exact .inl (.ended rfl rfl)
    | drop => exact .inl (.ended (by cases s <;> first | rfl | cases hstatus) rfl)
    | hangUp | leave => exact absurd rfl hx
  | droppedFresh hh | dropped hh => exact absurd hh hx
  | neverBegun hh | forsaken hh | unwinding hh | unwound _ hh | left _ hh | unheard _ hh =>
    exact absurd (Holder.hasDropped_of_isMute hh) hx

/-- A step of the body leads to a phase, with one use of a channel more. -/
theorem BodyStep.phase (hs : BodyStep b x e y) (h : Phase x rest) : Phase y (rest ++ e.toList) := by
  cases h with
  -- A body misses its input only when the holder's end of the inbox is gone.
  | new | suspended => cases hs; contradiction
  | accepted hstatus hc =>
    obtain ⟨rfl, rfl⟩ := hc.of_sending (.body hs)
    exact .sent hstatus hc
  | sent hstatus hc =>
    obtain ⟨rfl, rfl⟩ := hc.of_sent (.body hs)
    cases hc <;> exact .working hstatus
  | working hstatus =>
    cases hs with
    | work | yieldRefused => exact .working hstatus
    | yield => exact .giving
    | finish => exact .closing (terminal_ending _ _)
  | giving =>
    cases hs with
    | give => exact .given
  | given => cases hs; contradiction
  | closing hstatus =>
    cases hs with
    | close => exact .closed hstatus
  | closed | ended | neverBegun | left | unheard => cases hs
  | droppedFresh =>
    cases hs with
    | droppedEarly hm => exact .neverBegun hm
  | dropped =>
    cases hs with
    | miss hm => exact .forsaken hm
  | forsaken hh =>
    cases hs with
    | forsake => exact .unwinding hh
  -- A body that was told of the drop cannot hand out any more.
  | unwinding hh =>
    cases hs with
    | work | yieldRefused => exact .unwinding hh
    | yield hb hs => cases hs
    | finish => exact .unwound (terminal_ending _ _) hh
  | unwound hstatus hh =>
    cases hs with
    | close => exact .left hstatus hh
    | closeUnheard => exact .unheard hstatus rfl

/-- A step leads to a phase, with one use of a channel more or with a complete round. -/
theorem Phase.step (h : Phase x rest) (hs : Step b x e y) :
    Phase y (rest ++ e.toList) ∨ ∃ a o, rest ++ e.toList = round a o ∧ Phase y [] := by
  cases hs with
  | holder hs => exact hs.phase h
  | body hs => exact .inl (hs.phase h)

/-- The complete rounds of a number of calls. -/
def rounds (calls : List (Input V × Outcome V (Parcel V))) : List (Event V) :=
  calls.flatMap fun c => round c.1 c.2

/-- A run leads from phase to phase, with complete rounds in between. -/
theorem Run.phase (h : Run b x log y) (hx : Phase x rest) :
    ∃ calls rest', rest ++ log = rounds calls ++ rest' ∧ Phase y rest' := by
  -- `rest'` is what the last step has left of a round; a step makes it longer, or completes the round.
  induction h with
  | refl => exact ⟨[], rest, by simp [rounds], hx⟩
  | @step log y z e _ hs ih =>
    obtain ⟨calls, rest', hlog, hy⟩ := ih
    obtain hz | ⟨a, o, hround, hz⟩ := hy.step hs
    · exact ⟨calls, rest' ++ e.toList, by simp [← List.append_assoc, hlog], hz⟩
    · refine ⟨calls ++ [(a, o)], [], ?_, hz⟩
      calc rest ++ (log ++ e.toList) = rounds calls ++ (rest' ++ e.toList) := by
            simp [← List.append_assoc, hlog]
        _ = rounds (calls ++ [(a, o)]) ++ [] := by simp [hround, rounds]

/-- A run makes no step, or a first one. -/
theorem Run.head (h : Run b x log y) :
    log = [] ∧ y = x ∨ ∃ e z log', Step b x e z ∧ Run b z log' y ∧ log = e.toList ++ log' := by
  induction h with
  | refl => exact .inl ⟨rfl, rfl⟩
  | @step log y z e _ hs ih =>
    obtain ⟨rfl, rfl⟩ | ⟨e', x', log', hs', hrun, rfl⟩ := ih
    · exact .inr ⟨e, z, [], hs, .refl, by simp⟩
    · exact .inr ⟨e', x', log' ++ e.toList, hs', .step hrun hs, by simp⟩

theorem Run.trans (h : Run b x log y) (h' : Run b y log' z) : Run b x (log ++ log') z := by
  induction h' with
  | refl => simpa using h
  | step _ hs ih => simpa using ih.step hs

end Exchange

end OneShot
