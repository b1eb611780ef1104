import Mathlib.Order.WellFounded
import OneShot.Proofs.Exchange

/-!
# Messages alternate

The two sides of a coroutine take turns: at any moment at most one message is on its way, it is received
before the next one is sent, and a call that was accepted is answered once, by an output that the body sends
after it has the input. `Alternates` lists what this means for an exchange that has got somewhere, and
`Run.alternates` says that it holds of every body and however the steps of the two sides mix. Only a dropped
coroutine leaves a message behind: the last output of its body.
-/

namespace OneShot.Exchange

variable {S V : Type} {b : Behavior S V} {x y z : Exchange S V} {log log' rest : List (Event V)}
  {e : Option (Event V)} {a : Input V} {o : Outcome V (Parcel V)}

/-- The messages since the last complete round. -/
inductive Unfinished (h : Holder V) : List (Event V) → Prop where
  | nothing : Unfinished h []
  /-- A call has not heard its output yet. -/
  | call {rest : List (Event V)} (hh : h.inCall = true) (a : Input V) (o : Outcome V (Parcel V))
    (hrest : rest <+: round a o) : Unfinished h rest
  /-- The coroutine was dropped, and its body finds that out before it sends its last output. -/
  | given {rest : List (Event V)} (hh : h.hasDropped = true) (o : Outcome V (Parcel V))
    (hrest : rest <+: [.missed, .given o]) : Unfinished h rest
  /-- The same, and nobody can receive the output. -/
  | unheard {rest : List (Event V)} (hh : h.hasDropped = true) (o : Outcome V (Parcel V))
    (hrest : rest <+: [.missed, .unheard o]) : Unfinished h rest

/-- What holds of an exchange that has used its channels as `log` says. -/
structure Alternates (b : Behavior S V) (log : List (Event V)) (x : Exchange S V) : Prop where
  /-- Each call has its round, and no round begins before the one before it is complete. -/
  inRounds : ∃ calls rest, log = rounds calls ++ rest ∧ Unfinished x.holder rest
  /-- At most one message is on its way. -/
  inFlight : x.inbox.toList.length + x.outbox.toList.length ≤ 1
  /-- A holder that is about to send finds room. -/
  inboxFree : ∀ a, x.holder = .sending a → x.inbox = none
  /-- A body that is about to send finds room. -/
  outboxFree : ∀ o, x.body.message? = some o → x.outbox = none
  /-- From the moment a call is accepted, the channels are used for its round and for nothing else until the
  round is complete. -/
  answered : ∀ a, x.holder = .sending a → ∀ log' y, Run b x log' y →
    (∃ o, round a o <+: log') ∨ y.holder.inCall = true ∧ ∃ o, log' <+: round a o
  /-- The output comes, unless the body goes on by itself for ever. -/
  comesBack : x.holder.inCall = true → ∀ f, IsFull b f → f 0 = x →
    (∃ n o, Step b (f n) (some (.heard o)) (f (n + 1))) ∨ ∃ n, ∀ k, n ≤ k → (f k).body.isWorking = true
  /-- An input is received before anything else happens. -/
  inputRead : ∀ a, x.inbox = some a → OnlyNext b x (.taken a)
  /-- So is an output, unless the coroutine was dropped and the output is the last one of its body. -/
  outputRead : ∀ o, x.outbox = some o → OnlyNext b x (.heard o) ∨
    x.holder.hasDropped = true ∧ x.body = .ended ∧ [.missed, .given o] <:+ log

/-! ## What each phase shows -/

theorem Phase.unfinished (h : Phase x rest) : Unfinished x.holder rest := by
  cases h with
  | sent | working | giving | closing => exact .call rfl _ (.failure .canceled) ⟨_, rfl⟩
  | given | closed => exact .call rfl _ _ ⟨_, rfl⟩
  | neverBegun hh | forsaken hh | unwinding hh | unwound _ hh =>
    exact .given (Holder.hasDropped_of_isMute hh) (.failure .canceled) ⟨_, rfl⟩
  | left _ hh => exact .given (Holder.hasDropped_of_isMute hh) _ (List.prefix_refl _)
  | unheard _ hh => exact .unheard (Holder.hasDropped_of_isMute hh) _ (List.prefix_refl _)
  | _ => exact .nothing

theorem Phase.inFlight (h : Phase x rest) : x.inbox.toList.length + x.outbox.toList.length ≤ 1 := by
  cases h <;> simp

theorem Phase.inboxFree (h : Phase x rest) (hx : x.holder = .sending a) : x.inbox = none := by
  cases h <;> first | rfl | cases hx

theorem Phase.outboxFree (h : Phase x rest) (hx : x.body.message? = some o) : x.outbox = none := by
  cases h <;> first | rfl | cases hx

theorem Phase.inputRead (h : Phase x rest) (hx : x.inbox = some a) : OnlyNext b x (.taken a) := by
  cases h with
  | sent _ hc =>
    cases hx
    exact ⟨⟨_, hc.step_taken _⟩, fun _ _ hs => (hc.of_sent hs).1⟩
  | _ => cases hx

/-- An output is received before anything else happens, if it is not the last one of a dropped coroutine. -/
theorem Phase.outputRead (h : Phase x rest) (hx : x.outbox = some o) : OnlyNext b x (.heard o) ∨
    x.holder.hasDropped = true ∧ x.body = .ended ∧ rest = [.missed, .given o] := by
  cases h with
  | given =>
    cases hx
    refine .inl ⟨⟨_, .holder .hear⟩, fun e y hs => ?_⟩
    obtain ⟨⟨⟩⟩ | ⟨⟨⟩⟩ := hs <;> first | rfl | contradiction
  | closed =>
    cases hx
    refine .inl ⟨⟨_, .holder .hear⟩, fun e y hs => ?_⟩
    obtain ⟨⟨⟩⟩ | ⟨⟨⟩⟩ := hs
    rfl
  | left _ hh =>
    cases hx
    exact .inr ⟨Holder.hasDropped_of_isMute hh, rfl, rfl⟩
  | _ => cases hx

/-! ## The output of a call -/

/-- How far a call is from its output. -/
def distance : Exchange S V → Nat
  | ⟨_, _, _, .sending _, _⟩ => 5
  | ⟨_, some _, _, _, _⟩ => 4
  | ⟨_, _, _, _, .working _⟩ => 3
  | ⟨_, _, none, _, _⟩ => 2
  | _ => 1

/-- During a call somebody can make a step, if it is not up to the body alone. -/
theorem Phase.progress (h : Phase x rest) (hx : x.holder.inCall = true) (hw : x.body.isWorking = false) :
    ∃ e y, Step b x e y := by
  cases h with
  | accepted => exact ⟨_, _, .holder .send⟩
  | sent _ hc => exact ⟨_, _, hc.step_taken _⟩
  | working => cases hw
  | giving => exact ⟨_, _, .body (.give nofun)⟩
  | closing => exact ⟨_, _, .body (.close nofun)⟩
  | given | closed => exact ⟨_, _, .holder .hear⟩
  | new | suspended => cases hx
  | _ => simp_all [Holder.inCall_of_hasDropped, Holder.hasDropped_of_isMute]

/-- During a call each step brings its output nearer, except that the body may go on by itself. -/
theorem Phase.nearer (h : Phase x rest) (hx : x.holder.inCall = true) (hs : Step b x e y) :
    (∃ o, e = some (.heard o)) ∨ y.holder.inCall = true ∧ (y.distance < x.distance ∨
      x.body.isWorking = true ∧ y.distance = x.distance) := by
  cases h with
  | accepted _ hc =>
    obtain ⟨rfl, rfl⟩ := hc.of_sending hs
    exact .inr ⟨rfl, .inl (by simp [distance])⟩
  | sent _ hc =>
    obtain ⟨rfl, rfl⟩ := hc.of_sent hs
    cases hc <;> exact .inr ⟨rfl, .inl (by simp [distance, Body.after])⟩
  | working =>
    cases hs with
    | holder hs => cases hs
    | body hs =>
      cases hs with
      | work | yieldRefused => exact .inr ⟨rfl, .inr ⟨rfl, rfl⟩⟩
      | yield | finish => exact .inr ⟨rfl, .inl (by simp [distance])⟩
  | giving | closing =>
    obtain ⟨⟨⟩⟩ | ⟨⟨⟩⟩ := hs
    exact .inr ⟨rfl, .inl (by simp [distance])⟩
  | given | closed =>
    obtain ⟨⟨⟩⟩ | ⟨⟨⟩⟩ := hs
    all_goals first | contradiction | exact .inl ⟨_, rfl⟩
  | new | suspended => cases hx
  | _ => simp_all [Holder.inCall_of_hasDropped, Holder.hasDropped_of_isMute]

/-- As long as its output does not come, a call goes on. -/
theorem Phase.goesOn (h : Phase x rest) (hx : x.holder.inCall = true)
    (hy : (∃ e, Step b x e y) ∨ y = x ∧ ∀ e z, ¬ Step b x e z)
    (hnone : ∀ o, ¬ Step b x (some (.heard o)) y) :
    (∃ rest, Phase y rest) ∧ y.holder.inCall = true ∧
      (y.distance < x.distance ∨ x.body.isWorking = true ∧ y.distance = x.distance) := by
  obtain ⟨e, hs⟩ | ⟨rfl, hstuck⟩ := hy
  · obtain ⟨o, rfl⟩ | ⟨hcall, hnearer⟩ := h.nearer hx hs
    · exact absurd hs (hnone o)
    · obtain hy | ⟨_, _, _, hy⟩ := h.step hs <;> exact ⟨⟨_, hy⟩, hcall, hnearer⟩
  · -- Only a body that works can leave everybody without a step.
    have hw : y.body.isWorking = true := by
      by_contra hw
      obtain ⟨e, z, hs⟩ := h.progress (b := b) hx (Bool.eq_false_iff.2 hw)
      exact hstuck e z hs
    exact ⟨⟨rest, h⟩, hx, .inr ⟨hw, rfl⟩⟩

/-- What goes down except while a property holds stays the same in the end, and then the property holds. -/
private theorem exists_forall_of_descends {d : Nat → Nat} {p : Nat → Prop}
    (hd : ∀ n, d (n + 1) < d n ∨ p n ∧ d (n + 1) = d n) : ∃ n, ∀ k, n ≤ k → p k := by
  obtain ⟨n, hmin⟩ : ∃ n, ∀ k, d n ≤ d k := ⟨_, fun k => Function.argmin_le d k⟩
  have hsame : ∀ k, n ≤ k → d k = d n := by
    intro k hk
    induction k, hk using Nat.le_induction with
    | base => rfl
    | succ k _ ih =>
      have hk := hmin (k + 1)
      obtain hlt | ⟨-, heq⟩ := hd k
      · omega
      · exact heq.trans ih
  refine ⟨n, fun k hk => ?_⟩
  have hk' := hmin (k + 1)
  have hsame := hsame k hk
  obtain hlt | ⟨hp, -⟩ := hd k
  · omega
  · exact hp

/-- The output of a call comes, unless the body goes on by itself for ever. -/
theorem Phase.comesBack (h : Phase x rest) (hx : x.holder.inCall = true) {f : Nat → Exchange S V}
    (hf : IsFull b f) (h0 : f 0 = x) :
    (∃ n o, Step b (f n) (some (.heard o)) (f (n + 1))) ∨
      ∃ n, ∀ k, n ≤ k → (f k).body.isWorking = true := by
  refine or_iff_not_imp_left.2 fun hnone => ?_
  -- The call goes on for ever, so from some moment on the distance stays the same.
  have hcall : ∀ n, (∃ rest, Phase (f n) rest) ∧ (f n).holder.inCall = true := by
    intro n
    induction n with
    | zero => exact h0 ▸ ⟨⟨rest, h⟩, hx⟩
    | succ n ih =>
      obtain ⟨⟨rest, hp⟩, hcall⟩ := ih
      have hnext := hp.goesOn hcall (hf n) fun o hs => hnone ⟨n, o, hs⟩
      exact ⟨hnext.1, hnext.2.1⟩
  refine exists_forall_of_descends (d := fun n => (f n).distance) fun n => ?_
  obtain ⟨⟨rest, hp⟩, hcall⟩ := hcall n
  exact (hp.goesOn hcall (hf n) fun o hs => hnone ⟨n, o, hs⟩).2.2

/-! ## The round of a call -/

theorem rounds_cons (c : Input V × Outcome V (Parcel V)) (calls : List (Input V × Outcome V (Parcel V))) :
    rounds (c :: calls) = round c.1 c.2 ++ rounds calls := rfl

/-- Once its input was sent, the channels are used for the round of a call. -/
theorem Phase.inRound (h : Phase x [.sent a]) (hr : Run b x log y) :
    (∃ o, round a o <+: .sent a :: log) ∨ y.holder.inCall = true ∧ ∃ o, .sent a :: log <+: round a o := by
  obtain ⟨calls, rest, hlog, hy⟩ := hr.phase h
  rw [List.singleton_append] at hlog
  cases calls with
  -- The round is not complete yet, so what there is begins with the input of the call.
  | nil =>
    obtain rfl : .sent a :: log = rest := hlog
    cases hy.unfinished with
    | call hcall a' o hrest =>
      obtain ⟨⟨⟩, -⟩ := List.cons_prefix_cons.1 hrest
      exact .inr ⟨hcall, o, hrest⟩
    | given _ _ hrest | unheard _ _ hrest => nomatch (List.cons_prefix_cons.1 hrest).1
  | cons c calls =>
    rw [rounds_cons, List.append_assoc] at hlog
    obtain ⟨rfl⟩ : a = c.1 := by simpa [round] using congrArg List.head? hlog
    exact .inl ⟨c.2, rounds calls ++ rest, hlog.symm⟩

/-- From the moment a call is accepted, the channels are used for its round. -/
theorem Phase.answered (h : Phase x rest) (hx : x.holder = .sending a) (hr : Run b x log y) :
    (∃ o, round a o <+: log) ∨ y.holder.inCall = true ∧ ∃ o, log <+: round a o := by
  cases h with
  | accepted hs hc =>
    cases hx
    obtain ⟨rfl, rfl⟩ | ⟨e, z, log, hstep, hr, rfl⟩ := hr.head
    · exact .inr ⟨rfl, .failure .canceled, List.nil_prefix⟩
    -- The first step can only be the send.
    obtain ⟨rfl, rfl⟩ := hc.of_sending hstep
    exact Phase.inRound (.sent hs hc) hr
  | ended _ hh | droppedFresh hh | dropped hh | neverBegun hh | forsaken hh | unwinding hh | unwound _ hh
  | left _ hh | unheard _ hh => cases hx; cases hh
  | _ => cases hx

/-- However the steps of a holder and of any body mix, their messages alternate. -/
theorem Run.alternates (h : Run b .initial log x) : Alternates b log x := by
  obtain ⟨calls, rest, hlog, hx⟩ := h.phase .new
  rw [List.nil_append] at hlog
  constructor
  case inRounds => exact ⟨calls, rest, hlog, hx.unfinished⟩
  case inFlight => exact hx.inFlight
  case inboxFree => exact fun a => hx.inboxFree
  case outboxFree => exact fun o => hx.outboxFree
  case answered => exact fun a ha log' y => hx.answered ha
  case comesBack => exact fun hcall f => hx.comesBack hcall
  case inputRead => exact fun a => hx.inputRead
  case outputRead =>
    intro o ho
    obtain honly | ⟨hdropped, hended, hrest⟩ := hx.outputRead ho
    · exact .inl honly
    · exact .inr ⟨hdropped, hended, rounds calls, by rw [hlog, hrest]⟩

end OneShot.Exchange
