import OneShot.Proofs.Crossing
import OneShot.Proofs.Faults
import OneShot.Proofs.Ownership

/-!
# Programs that use only continuations they were handed

Code is handed a continuation when a handler function is entered with it, and may hand it to a procedure that
it calls. `Code.Uses` says that code names no other places. A program of such code follows the rule about
places: `Disciplined.usesOwn`.

A program may also name no places at all. Then no continuation is ever resumed, and no perform is ever
answered: `Disciplined.not_answered`. The proposition `A` says which of both is meant: whether continuations
are resumed.
-/

namespace OneShot

variable {P V σ : Type} {A : Prop}

/-- The continuation that a procedure is entered with. -/
def Entry.cont? : Entry V → Option ContId
  | .performed _ k => some k
  | _ => none

/-- The continuation that an operation hands to a procedure. -/
def Act.passed? : Act P V → Option ContId
  | .call _ entry => entry.cont?
  | _ => none

/-- The code names only places in `K`, and calls procedures with such places only. -/
def Code.Uses (K : ContId → Prop) : Code P V σ V → Prop
  | .act a next => (∀ k, (Code.act a next).place? = some k → K k) ∧
      (∀ k, a.passed? = some k → K k) ∧ ∀ o, (next o).Uses K
  | .ask q next => (∀ k, (Code.ask q next).place? = some k → K k) ∧ ∀ r, (next r).Uses K
  | .access _ next => ∀ s, (next s).Uses K
  | _ => True

theorem Code.Uses.mono {K K' : ContId → Prop} {c : Code P V σ V} (h : c.Uses K)
    (hK : ∀ k, K k → K' k) : c.Uses K' := by
  induction c with
  | pure v => trivial
  | fail f => trivial
  | panic p => trivial
  | act a next ih => exact ⟨fun k hk => hK k (h.1 k hk), fun k hk => hK k (h.2.1 k hk), fun o => ih o (h.2.2 o)⟩
  | ask q next ih => exact ⟨fun k hk => hK k (h.1 k hk), fun r => ih r (h.2 r)⟩
  | access change next ih => exact fun s => ih s (h s)

theorem Code.uses_ofOutcome (K : ContId → Prop) (o : Outcome V V) :
    (Code.ofOutcome o : Code P V σ V).Uses K := by
  cases o <;> trivial

/-- What goes from routine to routine answers no perform, unless continuations are resumed. -/
def Parcel.Silent (A : Prop) : Parcel V → Prop
  | .boxed _ => A
  | _ => True

def Outcome.Silent (A : Prop) : Outcome V (Parcel V) → Prop
  | .value p => p.Silent A
  | _ => True

def Input.Silent (A : Prop) : Input V → Prop
  | .parcel p => p.Silent A
  | .cancel => True

def Start.Silent (A : Prop) : Start P V → Prop
  | .rejoin _ _ => A
  | _ => True

def Control.Silent (A : Prop) : Control P V σ → Prop
  | .fresh s => s.Silent A
  | .starting s _ => s.Silent A
  | .returning o => o.Silent A
  | _ => True

def Finish.Silent (A : Prop) : Finish P → Prop
  | .into _ => A
  | _ => True

/-- The code in the frames of a stack names only places that frames below it own. -/
def StackUses (A : Prop) : List (Frame P V σ) → Prop
  | [] => True
  | .next n :: st => (∀ o, (n o).Uses fun k => A ∧ .owning k ∈ st) ∧ StackUses A st
  | _ :: st => StackUses A st

theorem StackUses.tail {f : Frame P V σ} {st : List (Frame P V σ)} (h : StackUses A (f :: st)) :
    StackUses A st := by
  cases f with
  | next n => exact h.2
  | _ => exact h

/-- The code of a routine names only places that the routine owns, and the routine answers no perform unless
continuations are resumed. -/
structure Routine.Disciplined (A : Prop) (r : Routine P V σ) : Prop where
  code : ∀ c, r.control = .running c → c.Uses fun k => A ∧ .owning k ∈ r.stack
  frames : StackUses A r.stack
  control : r.control.Silent A
  scope : ∀ c, r.scope = some c → c.finish.Silent A
  inbox : ∀ x, r.inbox = .full x → x.Silent A
  outbox : ∀ o, r.outbox = .full o → o.Silent A

namespace Machine

open Control

variable {code : P → Entry V → Code P V σ V} {m m' : Machine P V σ} {i j s c : RoutineId}
  {o : Outcome V (Parcel V)} {st : List (Frame P V σ)}

/-- All routines are disciplined. -/
def Disciplined (A : Prop) (m : Machine P V σ) : Prop := ∀ j, (m.routine j).Disciplined A

namespace Disciplined

/-! ## Changes of one routine -/

section Changes

variable (h : m.Disciplined A)
include h

theorem congr (hr : ∀ j, m'.routine j = m.routine j) : m'.Disciplined A := fun j => hr j ▸ h j

theorem update {f : Routine P V σ → Routine P V σ}
    (hf : (m.routine i).Disciplined A → (f (m.routine i)).Disciplined A) : (m.update i f).Disciplined A := by
  intro j
  rw [routine_update]
  split
  · next hij =>
    obtain ⟨rfl, -⟩ := hij
    exact hf (h i)
  · exact h j

/-- A routine changes something else. -/
theorem updateOther {f : Routine P V σ → Routine P V σ} (hcontrol : ∀ r, (f r).control = r.control)
    (hstack : ∀ r, (f r).stack = r.stack) (hscope : ∀ r, (f r).scope = r.scope)
    (hinbox : ∀ r x, (f r).inbox = .full x → r.inbox = .full x ∨ x.Silent A)
    (houtbox : ∀ r x, (f r).outbox = .full x → r.outbox = .full x ∨ x.Silent A) :
    (m.update i f).Disciplined A :=
  h.update fun hi =>
    { code := by rw [hcontrol, hstack]; exact hi.code
      frames := by rw [hstack]; exact hi.frames
      control := by rw [hcontrol]; exact hi.control
      scope := by rw [hscope]; exact hi.scope
      inbox := fun x hx => (hinbox _ x hx).elim (hi.inbox x) id
      outbox := fun x hx => (houtbox _ x hx).elim (hi.outbox x) id }

theorem setControl {d : Control P V σ}
    (hcode : ∀ e, d = .running e → e.Uses fun k => A ∧ .owning k ∈ (m.routine i).stack)
    (hd : d.Silent A) : (m.setControl i d).Disciplined A :=
  h.update fun hi => ⟨hcode, hi.frames, hd, hi.scope, hi.inbox, hi.outbox⟩

theorem run {e : Code P V σ V} (he : e.Uses fun k => A ∧ .owning k ∈ (m.routine i).stack) :
    (m.setControl i (.running e)).Disciplined A :=
  h.setControl (by rintro _ ⟨⟩; exact he) trivial

theorem reply (ho : o.Silent A) : (m.reply i o).Disciplined A := h.setControl (by rintro _ ⟨⟩) ho

theorem fail (f : Failure) : (m.fail i f).Disciplined A := h.reply trivial

theorem setStatus (a : Status) : (m.setStatus i a).Disciplined A :=
  h.updateOther (fun _ => rfl) (fun _ => rfl) (fun _ => rfl) (fun _ _ => .inl) fun _ _ => .inl

theorem setRegistry (p : Place) (g : Registry RoutineId) : (m.setRegistry p g).Disciplined A :=
  h.congr fun j => routine_setRegistry m p g j

theorem pushFrame {f : Frame P V σ}
    (hf : ∀ n, f = .next n → ∀ o, (n o).Uses fun k => A ∧ .owning k ∈ (m.routine i).stack) :
    (m.pushFrame i f).Disciplined A :=
  h.update fun hi =>
    { hi with
      code := fun e he => (hi.code e he).mono fun _ => .imp_right (List.mem_cons_of_mem _)
      frames := by
        cases f with
        | next n => exact ⟨hf n rfl, hi.frames⟩
        | _ => exact hi.frames }

theorem enter (config : Config) : (m.enter i config).Disciplined A :=
  h.update fun hi => by
    dsimp only
    split <;> exact
      ⟨fun e he => (hi.code e he).mono fun _ => .imp_right (List.mem_cons_of_mem _), hi.frames,
        hi.control, hi.scope, hi.inbox, hi.outbox⟩

theorem popFrame {f : Frame P V σ} (hst : (m.routine i).stack = f :: st)
    (hc : (m.routine i).control = .returning o) :
    (m.update i fun r => { r with stack := st }).Disciplined A :=
  h.update fun hi =>
    { hi with
      code := fun e he => by cases hc.symm.trans he
      frames := StackUses.tail (hst ▸ hi.frames) }

/-- A scope changes, but not so that it answers a body. -/
theorem setScope {g : Option (Scope P)} (hg : ∀ d, g = some d → d.finish.Silent A) :
    (m.update s fun r => { r with scope := g }).Disciplined A :=
  h.update fun hs => { hs with scope := hg }

theorem hold (s : RoutineId) : (m.hold s).Disciplined A := by
  refine h.update fun hs => { hs with scope := fun d hd => ?_ }
  obtain ⟨d', hd', rfl⟩ := Option.map_eq_some_iff.1 hd
  exact hs.scope d' hd'

theorem grow {r : Routine P V σ} (hr : r.Disciplined A) : (m.grow r).Disciplined A := by
  intro j
  rw [routine_grow]
  split
  · exact hr
  · exact h j

end Changes

/-! ## Operations -/

section Operations

variable (h : m.Disciplined A)
include h

theorem deliver {a : Input V} (ha : a.Silent A) : (m.deliver i a).Disciplined A := by
  unfold Machine.deliver
  split
  · next s p hc =>
    refine h.setControl (by rintro _ ⟨⟩) (?_ : s.Silent A)
    have hfresh := (h i).control
    rw [hc] at hfresh
    exact hfresh
  · exact h.setControl (by rintro _ ⟨⟩) trivial
  · exact h.reply ha
  · exact h.fail _

theorem hear (ho : o.Silent A) : (m.hear i c o).Disciplined A := by
  unfold Machine.hear
  split
  · exact (h.setStatus _).reply ho
  · exact h.reply ho

theorem emptyInbox : (m.update c fun r => { r with inbox := .empty }).Disciplined A :=
  h.updateOther (fun _ => rfl) (fun _ => rfl) (fun _ => rfl) (by rintro _ _ ⟨⟩) fun _ _ => .inl

theorem emptyOutbox : (m.update c fun r => { r with outbox := .empty }).Disciplined A :=
  h.updateOther (fun _ => rfl) (fun _ => rfl) (fun _ => rfl) (fun _ _ => .inl) (by rintro _ _ ⟨⟩)

theorem sendInput {a : Input V} (ha : a.Silent A) : (m.sendInput c a).Disciplined A := by
  unfold Machine.sendInput
  split
  · exact h.emptyInbox.deliver ha
  · exact h.updateOther (fun _ => rfl) (fun _ => rfl) (fun _ => rfl)
      (fun _ x hx => .inr (Slot.full.inj hx ▸ ha)) fun _ _ => .inl
  · exact h

theorem sendOutput (ho : o.Silent A) : (m.sendOutput c o).Disciplined A := by
  unfold Machine.sendOutput
  split
  · exact h.emptyOutbox.hear ho
  · exact h.updateOther (fun _ => rfl) (fun _ => rfl) (fun _ => rfl) (fun _ _ => .inl)
      fun _ x hx => .inr (Slot.full.inj hx ▸ ho)
  · exact h

theorem read : (m.read i c).Disciplined A := by
  unfold Machine.read
  split
  · next a hin => exact h.emptyInbox.deliver ((h c).inbox a hin)
  · have hwaits : (m.update c fun r => { r with inbox := .awaited i }).Disciplined A :=
      h.updateOther (fun _ => rfl) (fun _ => rfl) (fun _ => rfl) (by rintro _ _ ⟨⟩) fun _ _ => .inl
    exact hwaits.setControl (by rintro _ ⟨⟩) trivial
  · exact h.setControl (by rintro _ ⟨⟩) trivial

theorem listen : (m.listen i c).Disciplined A := by
  unfold Machine.listen
  split
  · next o hout => exact h.emptyOutbox.hear ((h c).outbox o hout)
  · have hwaits : (m.update c fun r => { r with outbox := .awaited i }).Disciplined A :=
      h.updateOther (fun _ => rfl) (fun _ => rfl) (fun _ => rfl) (fun _ _ => .inl) (by rintro _ _ ⟨⟩)
    exact hwaits.setControl (by rintro _ ⟨⟩) trivial
  · exact h.setControl (by rintro _ ⟨⟩) trivial

theorem close : (m.close c).2.Disciplined A := by
  unfold Machine.close
  split
  · have hclosed : (m.update c fun r => { r with status := .canceled, inbox := .empty }).Disciplined A :=
      h.updateOther (fun _ => rfl) (fun _ => rfl) (fun _ => rfl) (by rintro _ _ ⟨⟩) fun _ _ => .inl
    exact hclosed.deliver trivial
  · dsimp only
    split
    · exact h.setStatus _
    · exact h

theorem letGoWithin (n : Nat) (s : RoutineId) : (m.letGoWithin n s).Disciplined A := by
  induction n generalizing m s with
  | zero => exact h
  | succ n ih =>
    unfold Machine.letGoWithin
    split
    · exact h
    · next scope hscope =>
      have hless : (m.update s fun r =>
          { r with scope := some { scope with holders := scope.holders - 1 } }).Disciplined A :=
        h.setScope fun d hd => by
          obtain rfl := Option.some.inj hd
          exact (h s).scope scope hscope
      dsimp only
      split
      · split
        · exact (ih hless _).close
        · exact hless.close
      · exact hless

theorem release (k : Cont) : (m.release k).Disciplined A := by
  induction k generalizing m with
  | direct s => exact h.letGoWithin _ s
  | through s inner ih => exact ih (h.letGoWithin _ s)

theorem releaseParcel (p : Parcel V) : (m.releaseParcel p).Disciplined A := by
  unfold Machine.releaseParcel
  split
  · exact h.release _
  · exact h

theorem takeCont (k : ContId) : (m.takeCont k).2.Disciplined A := h.congr fun _ => rfl

theorem releaseAt (k : ContId) : (m.releaseAt k).Disciplined A := by
  have htake := h.takeCont k
  unfold Machine.releaseAt
  split
  · next heq =>
    rw [heq] at htake
    exact htake.release _
  · next heq =>
    rw [heq] at htake
    exact htake

theorem resume {p : Parcel V} (hp : p.Silent A) : (m.resume i c p).Disciplined A := by
  unfold Machine.resume
  split
  · exact (Disciplined.sendInput (h.setStatus _) (a := .parcel p) hp).listen
  · exact h.fail _

theorem resumeOn (place : Place) {p : Parcel V} (hp : p.Silent A) :
    (m.resumeOn i place c p).Disciplined A :=
  ((h.setRegistry _ _).pushFrame (by rintro _ ⟨⟩)).resume hp

theorem yield {p : Parcel V} (hp : p.Silent A) : (m.yield i c p).Disciplined A := by
  unfold Machine.yield
  split
  · exact (Disciplined.sendOutput (h.setStatus _) (o := .value p) hp).read
  · exact (h.releaseParcel p).fail _
  · exact (h.releaseParcel p).fail _

theorem suspend (place : Place) {p : Parcel V} (hp : p.Silent A) : (m.suspend i place p).Disciplined A := by
  unfold Machine.suspend
  split
  · exact (h.releaseParcel p).fail _
  · split
    · exact (h.setRegistry _ _).yield hp
    · exact (h.releaseParcel p).fail _

theorem cancel (answer : V) : (m.cancel i c answer).Disciplined A := by
  unfold Machine.cancel
  split
  · exact (Disciplined.sendInput ((h.setStatus _).pushFrame (by rintro _ ⟨⟩)) (a := .cancel) trivial).listen
  · exact h.fail _

theorem join (answer : V) : (m.join i c answer).Disciplined A := by
  unfold Machine.join
  split
  · exact h.reply trivial
  · have hjoins : (m.update c fun r => { r with joiners := i :: r.joiners }).Disciplined A :=
      h.updateOther (fun _ => rfl) (fun _ => rfl) (fun _ => rfl) (fun _ _ => .inl) fun _ _ => .inl
    exact hjoins.setControl (by rintro _ ⟨⟩) trivial

theorem dispose (answer : V) : (m.dispose i c answer).Disciplined A := by
  have hclose := h.close (c := c)
  unfold Machine.dispose
  split
  · exact h.fail _
  · split
    · next heq =>
      rw [heq] at hclose
      exact hclose.join answer
    · next heq =>
      rw [heq] at hclose
      exact hclose.reply trivial

theorem wakeJoiner : (m.wakeJoiner i).Disciplined A := by
  unfold Machine.wakeJoiner
  split
  · exact h.reply trivial
  · exact h

theorem finish (ho : o.Silent A) : (m.finish i o).Disciplined A := by
  rw [finish_eq]
  have hended : ((m.update i (Routine.atEnd o)).pause i).Disciplined A :=
    h.update fun hi => ⟨by rintro _ ⟨⟩, hi.frames, trivial, hi.scope, hi.inbox, hi.outbox⟩
  have hsent := hended.sendOutput (c := i) ho
  generalize ((m.update i (Routine.atEnd o)).pause i).sendOutput i o = m₁ at hsent
  induction (m.routine i).joiners generalizing m₁ with
  | nil => exact hsent
  | cons j js ih => exact ih _ hsent.wakeJoiner

theorem callOwning (hi : i.val < m.routines.size) (k : Cont) {d : ContId → Code P V σ V}
    (hd : ∀ place, (d place).Uses fun k' => A ∧ k' = place) : (m.callOwning i k d).Disciplined A := by
  have hkept : (m.keepCont k).2.Disciplined A := h.congr fun _ => rfl
  refine (hkept.pushFrame (f := .owning _) (by rintro _ ⟨⟩)).run ((hd _).mono ?_)
  rintro k' ⟨hA, rfl⟩
  have hi' : i.val < (m.keepCont k).2.routines.size := hi
  refine ⟨hA, ?_⟩
  rw [Machine.pushFrame, routine_update_self hi']
  exact List.mem_cons_self

theorem openScope {scope : Scope P} {start : Start P V} (hi : i.val < m.routines.size)
    (h0 : scope.holders = 0) (hscope : scope.finish.Silent A) (hstart : start.Silent A) :
    (m.openScope i scope start).Disciplined A := by
  intro j
  rw [routine_openScope start h0 hi]
  split_ifs
  · exact ⟨by rintro _ ⟨⟩, (h i).frames, trivial, (h i).scope, (h i).inbox, (h i).outbox⟩
  · refine ⟨by rintro _ ⟨⟩, trivial, hstart, ?_, by rintro _ ⟨⟩, by rintro _ ⟨⟩⟩
    rintro _ ⟨⟩
    exact hscope
  · exact h j

theorem onContext {scope : Scope P} (hi : i.val < m.routines.size) (h0 : scope.holders = 0)
    (hscope : scope.finish.Silent A) (body : P) : (m.onContext i scope body).Disciplined A := by
  unfold Machine.onContext
  split
  · exact h.openScope hi h0 hscope trivial
  · exact h.fail _

theorem onCoroutine {f : Machine P V σ → Machine P V σ} (hf : (f m).Disciplined A) :
    (m.onCoroutine i c f).Disciplined A := by
  unfold Machine.onCoroutine
  split
  · exact hf
  · exact h.fail _

/-! ## Continuations -/

theorem enterScope (hA : A) (b : Boxed V) : (m.enterScope i s b).Disciplined A := by
  unfold Machine.enterScope
  split
  · have hholding := h.pushFrame (i := i) (f := .holding s) (by rintro _ ⟨⟩)
    exact Disciplined.resumeOn ((hholding.enter _).pushFrame (by rintro _ ⟨⟩)) _ (p := .boxed b) hA
  · exact h.fail _

theorem continueWith (hA : A) (hi : i.val < m.routines.size) (k : Cont) (b : Boxed V) :
    (m.continueWith i k b).Disciplined A := by
  unfold Machine.continueWith
  split
  · exact h.enterScope hA b
  · split
    · refine Disciplined.openScope ((h.hold _).pushFrame (by rintro _ ⟨⟩)) ?_ rfl hA hA
      simpa [Machine.pushFrame, Machine.hold] using hi
    · exact h.fail _

end Operations

section Code

variable (hcode : ∀ p entry, (code p entry).Uses fun k => A ∧ entry.cont? = some k)
  (h : m.Disciplined A) (hi : i.val < m.routines.size)
include hcode h hi

theorem claim {scope : Scope P} {e : Effect} {b : Boxed V} {k : Cont} :
    (m.claim code i scope e b k).Disciplined A := by
  unfold Machine.claim
  split
  · refine h.callOwning hi k fun place => (hcode _ _).mono ?_
    rintro k' ⟨hA, hk'⟩
    exact ⟨hA, (Option.some.inj hk').symm⟩
  · refine h.callOwning hi k fun place => ?_
    split
    · refine (hcode _ _).mono ?_
      rintro k' ⟨-, ⟨⟩⟩
    · exact ⟨by rintro _ ⟨⟩, by rintro _ ⟨⟩, Code.uses_ofOutcome _⟩
  · exact (h.release k).fail _
  · have hpush := h.pushFrame (i := i) (f := .forwarding e) (by rintro _ ⟨⟩)
    refine hpush.suspend _ ?_
    trivial

omit hi in
theorem conclude {scope : Scope P} {b : Boxed V} (hscope : scope.finish.Silent A) :
    (m.conclude code i s scope b).Disciplined A := by
  unfold Machine.conclude
  split
  · exact h.reply trivial
  · refine h.run ((hcode _ _).mono ?_)
    rintro k' ⟨-, ⟨⟩⟩
  · next heq =>
    rw [heq] at hscope
    refine Disciplined.enterScope (h.setScope fun d hd => ?_) hscope _
    obtain rfl := Option.some.inj hd
    exact hscope
  · exact h.fail _
  · exact h.fail _

theorem dispatch {x : Signal V} : (m.dispatch code i s x).Disciplined A := by
  have hi' : i.val < (m.hold s).routines.size := by simpa [Machine.hold] using hi
  unfold Machine.dispatch
  split
  · exact claim hcode (h.hold s) hi'
  · exact claim hcode (h.hold s) hi'
  · next scope b hscope => exact conclude hcode h ((h s).scope scope hscope)
  · exact h.fail _

theorem begin {a : Act P V} {next : Outcome V V → Code P V σ V}
    (hc : (m.routine i).control = .running (.act a next)) : (m.begin code i a).Disciplined A := by
  obtain ⟨hplace, hpassed, -⟩ := (h i).code _ hc
  cases a with
  | call p entry =>
    refine h.run ((hcode p entry).mono fun k hk => hpassed k ?_)
    exact hk.2
  | resume c v =>
    apply h.onCoroutine
    exact Disciplined.resume h (p := .plain v) trivial
  | resumeOn r c v =>
    apply h.onCoroutine
    exact Disciplined.resumeOn h _ (p := .plain v) trivial
  | cancel c answer =>
    apply h.onCoroutine
    exact h.cancel answer
  | dispose c answer =>
    apply h.onCoroutine
    exact h.dispose answer
  | yield c v =>
    apply h.onCoroutine
    exact Disciplined.yield h (p := .plain v) trivial
  | suspend r v =>
    unfold Machine.begin
    dsimp only
    split
    · exact Disciplined.suspend h _ (p := .plain v) trivial
    · exact h.fail _
  | perform ctx e v =>
    have hpush := h.pushFrame (i := i) (f := .performing) (by rintro _ ⟨⟩)
    exact hpush.suspend _ (p := .signal (.perform _ _)) trivial
  | raise ctx cause =>
    have hpush := h.pushFrame (i := i) (f := .performing) (by rintro _ ⟨⟩)
    exact hpush.suspend _ (p := .signal (.perform _ _)) trivial
  | handle ctx hd body =>
    refine h.onContext hi rfl ?_ body
    unfold Scope.ofHandler
    dsimp only
    split <;> trivial
  | tryWith ctx arms body => exact h.onContext hi rfl (show Finish.Silent A .passOn from trivial) body
  | continueWith k v =>
    have hA : A := (hplace k rfl).1
    have htake := h.takeCont k
    unfold Machine.begin
    dsimp only
    split
    · next heq =>
      have hsize := congrArg (fun x => x.2.routines.size) heq
      rw [heq] at htake
      exact htake.continueWith hA (hsize ▸ hi) _ _
    · next heq =>
      rw [heq] at htake
      exact htake.fail _

theorem unwind {f : Frame P V σ} (hc : (m.routine i).control = .returning o)
    (hst : (m.routine i).stack = f :: st) :
    ((m.update i fun r => { r with stack := st }).unwind code i o f).Disciplined A := by
  have ho : o.Silent A := by
    have hcontrol := (h i).control
    rw [hc] at hcontrol
    exact hcontrol
  have hpop := h.popFrame hst hc
  have hstack : ((m.update i fun r => { r with stack := st }).routine i).stack = st := by
    rw [routine_update_self hi]
  cases f with
  | next n =>
    refine hpop.run ?_
    rw [hstack]
    have hframes := (h i).frames
    rw [hst] at hframes
    exact hframes.1 _
  | registered p c => exact (hpop.setRegistry _ _).reply ho
  | nested d t =>
    refine Disciplined.reply ?_ ho
    exact hpop.updateOther (fun _ => rfl) (fun _ => rfl) (fun _ => rfl) (fun _ _ => .inl) fun _ _ => .inl
  | holding s => exact (hpop.letGoWithin _ s).reply ho
  | owning k => exact (hpop.releaseAt k).reply ho
  | dispatch s =>
    unfold Machine.unwind
    dsimp only
    split
    · exact dispatch hcode hpop (by simpa using hi)
    · exact hpop.fail _
    · exact hpop.reply ho
  | canceling answer =>
    unfold Machine.unwind
    dsimp only
    split
    · exact Disciplined.reply (hpop.releaseParcel _) trivial
    · exact hpop.reply trivial
    · exact hpop.reply ho
  | forwarding e =>
    unfold Machine.unwind
    dsimp only
    split
    · exact hpop.reply trivial
    · exact hpop.fail _
    · exact hpop.fail _
    · exact hpop.reply ho
  | _ =>
    unfold Machine.unwind
    dsimp only
    split
    · exact hpop.reply trivial
    · exact hpop.fail _
    · exact hpop.reply ho

end Code

theorem answer (h : m.Disciplined A) (q : Query P) : (m.answer i q).2.Disciplined A := by
  cases q with
  | spawn config body =>
    exact h.grow ⟨by rintro _ ⟨⟩, trivial, trivial, by rintro _ ⟨⟩, by rintro _ ⟨⟩, by rintro _ ⟨⟩⟩
  | skip =>
    exact h.grow (r := .absent)
      ⟨by rintro _ ⟨⟩, trivial, trivial, by rintro _ ⟨⟩, by rintro _ ⟨⟩, by rintro _ ⟨⟩⟩
  | abandon c =>
    show (if m.isCoroutine c && !m.isBusy c then m.abandon c else m).Disciplined A
    split
    · exact h.close
    · exact h
  | register r op => exact h.setRegistry _ _
  | keep k =>
    have htake := h.takeCont k
    unfold Machine.answer
    dsimp only
    split
    · next heq =>
      rw [heq] at htake
      exact htake.congr fun _ => rfl
    · next heq =>
      rw [heq] at htake
      exact htake
  | discard k => exact h.releaseAt k
  | _ => exact h.congr fun _ => rfl

/-! ## Steps -/

theorem stepOf (hcode : ∀ p entry, (code p entry).Uses fun k => A ∧ entry.cont? = some k)
    (h : m.Disciplined A) (hi : i.val < m.routines.size) : (m.stepOf code i).Disciplined A := by
  unfold Machine.stepOf
  split
  · next s a hc =>
    have hs : s.Silent A := by
      have hcontrol := (h i).control
      rw [hc] at hcontrol
      exact hcontrol
    unfold Machine.start
    split
    · refine h.run ((hcode _ _).mono ?_)
      rintro k ⟨-, ⟨⟩⟩
    · exact h.fail _
    · refine (h.pushFrame (f := .handledBody) (by rintro _ ⟨⟩)).run ((hcode _ _).mono ?_)
      rintro k ⟨-, ⟨⟩⟩
    · refine Disciplined.continueWith (h.pushFrame (by rintro _ ⟨⟩)) hs ?_ _ _
      simpa [Machine.pushFrame] using hi
  · next e hc =>
    have he := (h i).code e hc
    cases e with
    | pure v => exact h.reply trivial
    | fail f => exact h.fail f
    | panic p => exact h.reply trivial
    | act a next =>
      have hpush := h.pushFrame (i := i) (f := .next next) (by rintro n ⟨⟩; exact he.2.2)
      have hact : ((m.pushFrame i (.next next)).routine i).control = .running (.act a next) := by
        rw [Machine.pushFrame, routine_update_self hi]
        exact hc
      exact begin hcode hpush (by simpa [Machine.pushFrame] using hi) hact
    | ask q next =>
      refine (h.answer q).run ?_
      rw [stack_answer hi]
      exact he.2 _
    | access change next =>
      have hchange : ({ m with store := change m.store } : Machine P V σ).Disciplined A :=
        h.congr fun _ => rfl
      exact hchange.run (he m.store)
  · next o hc =>
    split
    · refine h.finish ?_
      have hcontrol := (h i).control
      rw [hc] at hcontrol
      exact hcontrol
    · next f st hst => exact unwind hcode h hi hc hst
  · exact h.congr fun _ => rfl

theorem step (hcode : ∀ p entry, (code p entry).Uses fun k => A ∧ entry.cont? = some k)
    (h : m.Disciplined A) (hm : m.Sound) (hstep : m.step code = some m') : m'.Disciplined A := by
  obtain ⟨i, -, -, ⟨hi, rfl, -⟩ | ⟨-, rfl⟩⟩ := hm.step_cases hstep
  · exact h.stepOf hcode (lt_of_isActive hi)
  · exact h.congr fun _ => rfl

/-- Code that is running names only places that its routine owns. -/
theorem usesOwn (h : m.Disciplined A) (hm : m.Sound) : m.UsesOwn := by
  intro i e k _ hc hplace j hj
  have he := (h i).code e hc
  have hk : A ∧ .owning k ∈ (m.routine i).stack := by
    cases e with
    | act a next => exact he.1 k hplace
    | ask q next => exact he.1 k hplace
    | _ => cases hplace
  exact hm.owner_unique hj hk.2

/-- If no continuation is ever resumed, then no suspended body is ever resumed with an answer. -/
theorem not_answered (h : m.Disciplined False) (j : RoutineId) (b : Boxed V) :
    (m.routine j).control ≠ .returning (.value (.boxed b)) := by
  intro hc
  have hcontrol := (h j).control
  rw [hc] at hcontrol
  exact hcontrol

end Disciplined

theorem disciplined_initial (store : σ) {c : Code P V σ V} (hc : c.Uses fun _ => False) :
    (initial store c : Machine P V σ).Disciplined A := by
  have hmain : (Routine.main c : Routine P V σ).Disciplined A := by
    refine ⟨?_, trivial, trivial, by rintro _ ⟨⟩, by rintro _ ⟨⟩, by rintro _ ⟨⟩⟩
    rintro _ ⟨⟩
    exact hc.mono fun _ => False.elim
  have habsent : (Routine.absent : Routine P V σ).Disciplined A :=
    ⟨by rintro _ ⟨⟩, trivial, trivial, by rintro _ ⟨⟩, by rintro _ ⟨⟩, by rintro _ ⟨⟩⟩
  rintro ⟨_ | j⟩
  · exact hmain
  · exact habsent

/-- A program that uses only continuations it was handed is disciplined in every run. -/
theorem Reaches.disciplined {store : σ} {c : Code P V σ V} (hr : Reaches code (initial store c) m)
    (hcode : ∀ p entry, (code p entry).Uses fun k => A ∧ entry.cont? = some k)
    (hc : c.Uses fun _ => False) : m.Disciplined A :=
  (hr.invariant
    (fun _ _ (h : Machine.Sound _ ∧ Machine.Disciplined A _) hstep =>
      ⟨h.1.step hstep, h.2.step hcode h.1 hstep⟩)
    (fun m h => ⟨h.1.passTurn, h.2.congr (routine_passTurn m)⟩)
    ⟨sound_initial store c, disciplined_initial store hc⟩).2

end Machine

end OneShot
