import OneShot.Proofs.Canceling

/-!
# Who drives a coroutine

A coroutine that code has made is driven by operations of code alone: whoever begins to listen to it
does so by a resume or a cancellation that names it (`Proper.act_of_listening`). And while its body is the only
one to hand out through it, what the body does goes with the status (`Routine.AtHome`): a body that works
runs or is being unwound.
-/

namespace OneShot

variable {P V σ : Type}

/-- The coroutine is one that an operation resumes or cancels. -/
def Act.Addresses (c : RoutineId) : Act P V → Prop
  | .resume d _ => d = c
  | .resumeOn _ d _ => d = c
  | .cancel d _ => d = c
  | _ => False

/-- The body of coroutine `c` has not begun, waits in a yield of its own or has ended, or it works and the
coroutine runs or was given up. -/
def Routine.AtHome (c : RoutineId) (x : Routine P V σ) : Prop :=
  x.control.isFresh = true ∨ x.control = .reading c ∨ x.control = .ended ∨
    x.status = .running ∨ x.status = .canceled

namespace Machine

open Control

variable {code : P → Entry V → Code P V σ V} {m m₁ m' : Machine P V σ} {i j s c a : RoutineId}
  {R : RegistryId → Prop} {o : Outcome V (Parcel V)}

/-! ## Who begins to listen -/

/-- If routine `i` listens, then in a call that is registered in a context: it runs a scope. -/
def ListensAsScope (m : Machine P V σ) (i : RoutineId) : Prop :=
  ∀ c, (m.routine i).control = .listening c →
    ∃ q d st, (m.routine i).stack = .registered (.context q) d :: st

/-- Nobody listens but as a change of control says. -/
theorem listening_setControl {d : Control P V σ}
    (hc : ((m.setControl i d).routine i).control = .listening c) : d = .listening c := by
  rw [setControl, routine_update] at hc
  split at hc
  · exact hc
  · next hge =>
    rw [routine_of_size_le (by simpa using hge)] at hc
    cases hc

theorem listening_listen (hc : ((m.listen i s).routine i).control = .listening c) : s = c := by
  unfold listen at hc
  split at hc
  · unfold hear at hc
    split at hc <;> cases listening_setControl hc
  · rw [routine_pause] at hc
    exact listening.inj (listening_setControl hc)
  · rw [routine_pause] at hc
    exact listening.inj (listening_setControl hc)

theorem listening_resume {x : Parcel V}
    (hc : ((m.resume i s x).routine i).control = .listening c) : s = c := by
  unfold resume at hc
  split at hc
  · exact listening_listen hc
  · cases listening_setControl hc

theorem listening_cancel {answer : V}
    (hc : ((m.cancel i s answer).routine i).control = .listening c) : s = c := by
  unfold cancel at hc
  split at hc
  · exact listening_listen hc
  · cases listening_setControl hc

theorem listening_onCoroutine {f : Machine P V σ → Machine P V σ}
    (hf : ((f m).routine i).control = .listening c → s = c)
    (hc : ((m.onCoroutine i s f).routine i).control = .listening c) : s = c := by
  unfold onCoroutine at hc
  split at hc
  · exact hf hc
  · cases listening_setControl hc

/-- Who listens after an operation that addresses a coroutine listens to this one. -/
theorem listening_begin {b : Act P V} (hb : b.Addresses s)
    (hc : ((m.begin code i b).routine i).control = .listening c) : s = c := by
  cases b with
  | resume d v =>
    obtain rfl : d = s := hb
    exact listening_onCoroutine (f := (·.resume i d (.plain v))) listening_resume hc
  | resumeOn r d v =>
    obtain rfl : d = s := hb
    exact listening_onCoroutine (f := (·.resumeOn i (.registry r) d (.plain v))) listening_resume hc
  | cancel d answer =>
    obtain rfl : d = s := hb
    exact listening_onCoroutine (f := (·.cancel i d answer)) listening_cancel hc
  | _ => exact hb.elim

theorem listensAsScope_setControl {d : Control P V σ} (hd : ∀ c, d ≠ .listening c) :
    (m.setControl i d).ListensAsScope i := fun c hc => absurd (listening_setControl hc) (hd c)

theorem listensAsScope_reply : (m.reply i o).ListensAsScope i := listensAsScope_setControl nofun

theorem listensAsScope_fail (f : Failure) : (m.fail i f).ListensAsScope i :=
  listensAsScope_setControl nofun

theorem listensAsScope_run (d : Code P V σ V) : (m.setControl i (.running d)).ListensAsScope i :=
  listensAsScope_setControl nofun

theorem listensAsScope_join (answer : V) : (m.join i c answer).ListensAsScope i := by
  unfold join
  split
  · exact listensAsScope_reply
  · intro d hd
    rw [routine_pause] at hd ⊢
    exact listensAsScope_setControl nofun d hd

theorem listensAsScope_dispose (answer : V) :
    (m.dispose i c answer).ListensAsScope i := by
  unfold Machine.dispose
  split
  · exact listensAsScope_fail _
  · split
    · exact listensAsScope_join answer
    · exact listensAsScope_reply

theorem listensAsScope_onCoroutine {f : Machine P V σ → Machine P V σ}
    (hf : c ≠ .main → (f m).ListensAsScope i) : (m.onCoroutine i c f).ListensAsScope i := by
  unfold onCoroutine
  split
  · next hc =>
    simp only [isCoroutine, Bool.and_eq_true, bne_iff_ne] at hc
    exact hf hc.1
  · exact listensAsScope_fail _

namespace Arranges

variable (h : Arranges R i m m₁) (ht : m.Tidy) (hi : (m.routine i).control.isActive = true)
include h ht hi

theorem listensAsScope_yield (hmain : c ≠ .main) (x : Parcel V) :
    (m₁.yield i c x).ListensAsScope i := by
  obtain ⟨ht₁, hcontrol, -⟩ := h.own_eq ht hi
  cases hc : m₁.status c with
  | running =>
    obtain ⟨l, hout⟩ := ht₁.exists_listener hc hmain
    intro d hd
    rw [routine_yield ht₁ (hcontrol ▸ hi) hc hout] at hd
    simp [handedOut] at hd
  | _ =>
    simp only [Machine.yield, hc]
    exact listensAsScope_fail _

theorem listensAsScope_suspend {place : Place} (hplace : ∀ r, place = .registry r → R r)
    (x : Parcel V) : (m₁.suspend i place x).ListensAsScope i := by
  unfold Machine.suspend
  split
  · exact listensAsScope_fail _
  · next hmain =>
    split
    · next c g heq =>
      obtain rfl : c = i := by
        have hfind : (m₁.registry place).items.find? (· == i) = some c := congrArg Prod.fst heq
        simpa using List.find?_some hfind
      exact (h.setRegistry place hplace g).listensAsScope_yield ht hi hmain x
    · exact listensAsScope_fail _

/-- A resume that is registered in a context. -/
theorem listensAsScope_resumeOn (ctx : Context) (hmain : s ≠ .main) (x : Parcel V) :
    (m₁.resumeOn i ctx.place s x).ListensAsScope i := by
  have ha₁ : Arranges R i m (m₁.setRegistry ctx.place ((m₁.registry ctx.place).push s)) :=
    h.setRegistry ctx.place (ofContext ctx) _
  have ha := ha₁.pushFrame (.registered ctx.place s) (fun _ hr => by cases hr)
  have hself := congrArg Routine.stack
    (routine_update_self (ha₁.lt ht hi) fun rt => { rt with stack := .registered ctx.place s :: rt.stack })
  unfold Machine.resumeOn Machine.resume
  rw [← Machine.pushFrame] at hself
  generalize (m₁.setRegistry ctx.place ((m₁.registry ctx.place).push s)).pushFrame i
    (.registered ctx.place s) = m₂ at ha hself
  obtain ⟨ht₂, hcontrol, -⟩ := ha.own_eq ht hi
  split
  · next hres =>
    have htr : m₂.Transfers i _ :=
      .resumes x hres hmain (by unfold Routine.isCanceling; rw [hself])
    exact fun d _ => ⟨_, _, _, (htr.stack ht₂ (hcontrol ▸ hi) i).trans hself⟩
  · exact listensAsScope_fail _

/-- A scope resumes its body. -/
theorem listensAsScope_enterScope (s : RoutineId) (b : Boxed V) :
    (m₁.enterScope i s b).ListensAsScope i := by
  unfold Machine.enterScope
  split
  · next scope hscope =>
    have harranged := ((h.pushFrame (.holding s) (fun _ hr => by cases hr)).enter
      scope.ctx.config).pushFrame (.dispatch s) (fun _ hr => by cases hr)
    exact harranged.listensAsScope_resumeOn ht hi scope.ctx (h.ne_main ht hi hscope) _
  · exact listensAsScope_fail _

theorem listensAsScope_openScope (scope : Scope P) (start : Start P V) :
    (m₁.openScope i scope start).ListensAsScope i :=
  ((h.spawn scope.ctx.config start (some scope)).hold _).listensAsScope_enterScope ht hi _ _

theorem listensAsScope_continueWith (k : Cont) (b : Boxed V) :
    (m₁.continueWith i k b).ListensAsScope i := by
  cases k with
  | direct s => exact h.listensAsScope_enterScope ht hi s b
  | through s inner =>
    simp only [Machine.continueWith]
    split
    · next scope hscope =>
      exact ((h.hold s).pushFrame (.holding s) (fun _ hr => by cases hr)).listensAsScope_openScope ht hi
        (scope.rejoining s) (.rejoin inner b)
    · exact listensAsScope_fail _

theorem listensAsScope_onContext (scope : Scope P) (body : P) :
    (m₁.onContext i scope body).ListensAsScope i := by
  unfold Machine.onContext
  split
  · exact h.listensAsScope_openScope ht hi _ _
  · exact listensAsScope_fail _

theorem listensAsScope_claim (scope : Scope P) (e : Effect) (b : Boxed V) (k : Cont) :
    (m₁.claim code i scope e b k).ListensAsScope i := by
  unfold Machine.claim
  split
  · exact listensAsScope_run _
  · exact listensAsScope_run _
  · exact listensAsScope_fail _
  · exact (h.pushFrame (.forwarding e) (fun _ hr => by cases hr)).listensAsScope_suspend ht hi
      (ofContext scope.ctx) _

theorem listensAsScope_conclude (hs : (m₁.routine s).scope.isSome) (scope : Scope P) (b : Boxed V) :
    (m₁.conclude code i s scope b).ListensAsScope i := by
  unfold Machine.conclude
  split
  · exact listensAsScope_reply
  · exact listensAsScope_run _
  · exact (h.setScope (by rw [hs]; rfl)).listensAsScope_enterScope ht hi _ _
  · exact listensAsScope_fail _
  · exact listensAsScope_fail _

theorem listensAsScope_dispatch (s : RoutineId) (x : Signal V) :
    (m₁.dispatch code i s x).ListensAsScope i := by
  unfold Machine.dispatch
  split
  · exact (h.hold s).listensAsScope_claim ht hi _ _ _ _
  · exact (h.hold s).listensAsScope_claim ht hi _ _ _ _
  · next hscope => exact h.listensAsScope_conclude ht hi (by rw [hscope]; rfl) _ _
  · exact listensAsScope_fail _

/-- An operation that addresses no coroutine. -/
theorem listensAsScope_begin {b : Act P V} (hR : ∀ r, b.usedRegistry = some r → R r)
    (hb : ∀ c, ¬ b.Addresses c) : (m₁.begin code i b).ListensAsScope i := by
  cases b with
  | call p entry => exact listensAsScope_run _
  | resume c v => exact absurd rfl (hb c)
  | resumeOn r c v => exact absurd rfl (hb c)
  | cancel c answer => exact absurd rfl (hb c)
  | dispose c answer =>
    exact listensAsScope_onCoroutine (f := (·.dispose i c answer)) fun _ => listensAsScope_dispose answer
  | yield c v =>
    exact listensAsScope_onCoroutine (f := (·.yield i c (.plain v))) fun hmain =>
      h.listensAsScope_yield ht hi hmain _
  | suspend r v =>
    unfold Machine.begin
    dsimp only
    split
    · exact h.listensAsScope_suspend ht hi (fun r' heq => hR r' (congrArg some (Place.registry.inj heq))) _
    · exact listensAsScope_fail _
  | perform ctx e v =>
    exact (h.pushFrame .performing (fun _ hr => by cases hr)).listensAsScope_suspend ht hi
      (ofContext ctx) _
  | raise ctx cause =>
    exact (h.pushFrame .performing (fun _ hr => by cases hr)).listensAsScope_suspend ht hi
      (ofContext ctx) _
  | handle ctx hd body => exact h.listensAsScope_onContext ht hi _ _
  | tryWith ctx arms body => exact h.listensAsScope_onContext ht hi _ _
  | continueWith k v =>
    have htake := h.takeCont k
    unfold Machine.begin
    dsimp only
    split
    · next c m₂ heq =>
      rw [heq] at htake
      exact htake.listensAsScope_continueWith ht hi _ _
    · exact listensAsScope_fail _

theorem listensAsScope_unwind (o : Outcome V (Parcel V)) (f : Frame P V σ) :
    (m₁.unwind code i o f).ListensAsScope i := by
  cases f with
  | next k => exact listensAsScope_run _
  | dispatch s =>
    unfold Machine.unwind
    dsimp only
    split
    · exact h.listensAsScope_dispatch ht hi _ _
    · exact listensAsScope_fail _
    · exact listensAsScope_reply
  | registered | nested | holding | owning => exact listensAsScope_reply
  | performing | forwarding | canceling | handledBody | rejoining =>
    unfold Machine.unwind
    dsimp only
    split <;> exact listensAsScope_reply

end Arranges

/-- In any other step than an operation that addresses a coroutine. -/
theorem Tidy.listensAsScope_stepOf (ht : m.Tidy) (hi : (m.routine i).control.isActive = true)
    (hb : ∀ b next, (m.routine i).control = .running (.act b next) → ∀ c, ¬ b.Addresses c) :
    (m.stepOf code i).ListensAsScope i := by
  have h : Arranges (fun _ => True) i m m := .refl
  unfold Machine.stepOf
  split
  · unfold Machine.start
    split
    · exact listensAsScope_run _
    · exact listensAsScope_fail _
    · exact listensAsScope_run _
    · exact (h.pushFrame .rejoining (fun _ _ => trivial)).listensAsScope_continueWith ht hi _ _
  · next d hc =>
    unfold Machine.exec
    split
    · exact listensAsScope_reply
    · exact listensAsScope_fail _
    · exact listensAsScope_reply
    · next b next =>
      exact (h.pushFrame (.next next) (fun _ _ => trivial)).listensAsScope_begin ht hi
        (fun _ _ => trivial) (hb b next hc)
    · exact listensAsScope_run _
    · exact listensAsScope_run _
  · next o hc =>
    split
    · intro c hcontrol
      rw [routine_finish ht hi] at hcontrol
      simp [finished] at hcontrol
    · next f st hst =>
      have hpop : Arranges (fun _ => True) i m (m.update i fun x => { x with stack := st }) := by
        refine h.own (fun _ => ⟨_, _, _, rfl⟩) fun r c _ hmem => ?_
        rw [hst]
        exact List.mem_cons_of_mem _ hmem
      exact hpop.listensAsScope_unwind ht hi o f
  · intro c hcontrol
    rw [routine_pause] at hcontrol
    exact absurd hcontrol (ne_listening_of_isActive hi c)

/-- Who begins to listen to a coroutine that code has made does so by an operation that names it. -/
theorem Proper.act_of_listening (hm : m.Proper) (hi : (m.routine i).control.isActive = true)
    (hs : m.step code = some m') (hhead : m.ready.head? = some i)
    (hl : (m'.routine i).control = .listening c) (hco : m'.isCoroutine c = true) :
    ∃ b next, (m.routine i).control = .running (.act b next) ∧ b.Addresses c := by
  obtain rfl : m.stepOf code i = m' := stepOf_eq_of_step hhead hs
  by_cases hb : ∀ b next, (m.routine i).control = .running (.act b next) → ∀ d, ¬ b.Addresses d
  · -- What a scope listens to is a handled body.
    obtain ⟨q, d, st, hst⟩ := hm.tidy.listensAsScope_stepOf hi hb c hl
    have hlistens := (hm.sound.step hs).linked.listening i c hl
    have hnone : ((m.stepOf code i).routine c).scope = none := by
      simp only [isCoroutine, Bool.and_eq_true, Option.isNone_iff_eq_none] at hco
      exact hco.2
    unfold Listens at hlistens
    rw [hnone, hst] at hlistens
    exact absurd hlistens (not_settled rfl rfl)
  · push Not at hb
    obtain ⟨b, next, hc, d, hd⟩ := hb
    rw [stepOf_act hc] at hl
    exact ⟨b, next, hc, listening_begin hd hl ▸ hd⟩

/-- If the coroutine then runs, it was resumed. -/
theorem Proper.resumes_of_listening (hm : m.Proper) (hi : (m.routine i).control.isActive = true)
    (hs : m.step code = some m') (hhead : m.ready.head? = some i)
    (hl : (m'.routine i).control = .listening c) (hco : m'.isCoroutine c = true)
    (hrun : m'.status c = .running) :
    ∃ b next, (m.routine i).control = .running (.act b next) ∧
      ((∃ v, b = .resume c v) ∨ ∃ q v, b = .resumeOn q c v) := by
  obtain ⟨b, next, hc, hb⟩ := hm.act_of_listening hi hs hhead hl hco
  refine ⟨b, next, hc, ?_⟩
  cases b with
  | resume d v => exact .inl ⟨v, by rw [show d = c from hb]⟩
  | resumeOn q d v => exact .inr ⟨q, v, by rw [show d = c from hb]⟩
  | cancel d answer =>
    obtain rfl : d = c := hb
    obtain rfl : m.stepOf code i = m' := stepOf_eq_of_step hhead hs
    -- A cancellation that is accepted leaves the coroutine canceled; else nobody listens.
    rw [stepOf_act hc, begin, onCoroutine, isCoroutine_pushFrame] at hl
    split at hl
    · next hco₀ =>
      by_cases hst : m.status d = .suspending
      · obtain ⟨-, hawaits, -⟩ := hm.stepOf_cancel code hhead hc hco₀ hst
        cases hrun.symm.trans hawaits.status
      · unfold cancel at hl
        split at hl
        · next hst' => exact absurd (by simpa using hst') hst
        · cases listening_setControl hl
    · cases listening_setControl hl
  | _ => exact hb.elim

/-- Who listens afterwards, and did not make the step, listened before, to a coroutine that ran if it does
so now. -/
theorem Tidy.listening_of_step (ht : m.Tidy) (hs : m.step code = some m')
    (hne : m.ready.head? ≠ some j) (hl : (m'.routine j).control = .listening c) :
    (m.routine j).control = .listening c ∧ m.status c = m'.status c := by
  obtain ⟨hj, hstack⟩ : (m.routine j).control = .listening c ∧
      (m'.routine j).stack = (m.routine j).stack := by
    obtain ⟨i, ready, hready, ⟨hi, hp, -⟩ | ⟨-, rfl⟩⟩ := ht.step_cases hs
    · have hji : j ≠ i := by
        rintro rfl
        exact hne (by rw [hready]; rfl)
      refine ⟨?_, hp.stack ht hi hji⟩
      cases hp with
      | ends hc hst =>
        rw [routine_finish ht hi] at hl
        simp only [finished, if_neg hji] at hl
        split at hl
        · cases hl
        · split at hl
          · exact (awoken_ne _ c).1.1 hl
          · exact hl
      | transfers harr htr =>
        obtain ⟨ht₁, hcontrol, -⟩ := harr.own_eq ht hi
        exact harr.listening ht hi (htr.listening ht₁ (hcontrol ▸ hi) hji hl)
    · exact ⟨hl, rfl⟩
  refine ⟨hj, ?_⟩
  rw [ht.heard c j hj, (ht.step hs).heard c j hl, Routine.isCanceling, Routine.isCanceling, hstack]

/-! ## What a body does and the status of its coroutine -/

end Machine

namespace Routine.AtHome

variable {c : RoutineId} {x : Routine P V σ}

/-- A body that works, or waits for somebody else, runs or is being unwound. -/
theorem working (h : x.AtHome c) (hf : x.control.isFresh = false) (hr : x.control ≠ .reading c)
    (he : x.control ≠ .ended) : x.status = .running ∨ x.status = .canceled := by
  rcases h with hf' | hr' | he' | hst
  · cases hf.symm.trans hf'
  · exact absurd hr' hr
  · exact absurd he' he
  · exact hst

theorem of_working (h : x.status = .running ∨ x.status = .canceled) : x.AtHome c :=
  .inr (.inr (.inr h))

theorem of_isActive (h : x.AtHome c) (hx : x.control.isActive = true) :
    x.status = .running ∨ x.status = .canceled :=
  h.working (Control.isFresh_of_isActive hx) (Control.ne_reading_of_isActive hx c)
    (Control.ne_ended_of_isActive hx)

end Routine.AtHome

namespace Machine

open Control

variable {code : P → Entry V → Code P V σ V} {m m₁ m' : Machine P V σ} {i j s c a : RoutineId}
  {R : RegistryId → Prop} {o : Outcome V (Parcel V)}

section AtHome

variable (ht : m.Tidy) (hi : (m.routine i).control.isActive = true) (ha : (m.routine a).AtHome a)
include ht ha

theorem Tidy.atHome_close (c : RoutineId) : ((m.close c).2.routine a).AtHome a := by
  by_cases hin : ∀ r, (m.routine c).inbox ≠ .awaited r
  · rwa [close_eq ht hin]
  · obtain ⟨r, hin⟩ : ∃ r, (m.routine c).inbox = .awaited r := by simpa using hin
    rw [routine_close ht hin]
    by_cases hac : a = c
    · exact .of_working (.inr (by simp [closed, hac]))
    · by_cases har : a = r
      · -- It reads from somebody else.
        subst har
        have hreads : (m.routine a).control = .reading c :=
          ((ht.reader c a).1 hin).resolve_right fun h => hac h.1
        have hwork := ha.working (by rw [hreads]; rfl) (by rw [hreads]; simpa using Ne.symm hac)
          (by rw [hreads]; simp)
        exact .of_working (by simpa [closed, hac] using hwork)
      · simpa [closed, hac, har] using ha

include hi

theorem Arranges.atHome (h : Arranges R i m m₁) : (m₁.routine a).AtHome a := by
  induction h with
  | refl => exact ha
  | inward _ hq _ ih =>
    unfold Routine.AtHome at *
    rwa [hq.control, hq.status]
  | grows _ hx ih =>
    rw [routine_grow]
    split
    · rcases hx with rfl | ⟨config, start, scope, rfl⟩
      · exact .inr (.inr (.inl rfl))
      · exact .inl rfl
    · exact ih
  | closes h c ih => exact (h.own_eq ht hi).1.atHome_close ih c

theorem Tidy.atHome_handOver (hc : (m.status c).isResumable = true) {t : Status}
    (htt : t = .running ∨ t = .canceled) (x : Input V) :
    ((m.handOver i c t x).routine a).AtHome a := by
  obtain ⟨r, hin⟩ := ht.exists_reader hc
  have hri := ht.ne_reader hi hin
  rw [routine_handOver ht hi hc hin]
  by_cases hac : a = c
  · exact .of_working (by simpa [handedOver, hac] using htt)
  · by_cases hai : a = i
    · subst hai
      exact .of_working (by simpa [handedOver, hac] using ha.of_isActive hi)
    · by_cases har : a = r
      · subst har
        have hreads : (m.routine a).control = .reading c :=
          ((ht.reader c a).1 hin).resolve_right fun h => hac h.1
        have hwork := ha.working (by rw [hreads]; rfl) (by rw [hreads]; simpa using Ne.symm hac)
          (by rw [hreads]; simp)
        exact .of_working (by simpa [handedOver, hac] using hwork)
      · simpa [handedOver, hac, hai, har, Routine.AtHome] using ha

/-- Control is passed, but nobody else hands out through the coroutine. -/
theorem Transfers.atHome (htr : m.Transfers i m')
    (hown : ∀ v next, (m.routine i).control = .running (.act (.yield a v) next) → i = a) :
    (m'.routine a).AtHome a := by
  have hlt := lt_of_isActive hi
  cases htr with
  | goes hd =>
    rw [Machine.setControl, routine_update_ite hlt]
    split
    · next hai =>
      subst hai
      exact .of_working (ha.of_isActive hi)
    · exact ha
  | resumes p hc hmain hst => exact ht.atHome_handOver hi ha hc (.inl rfl) _
  | cancels hc hmain hst => exact ht.atHome_handOver hi ha (by rw [hc]; rfl) (.inr rfl) _
  | @disposes c r answer hin hmain hc =>
    have hclosed := ht.atHome_close ha c
    have hi₁ := ht.isActive_close hi hin
    rw [routine_join hi₁ hc]
    by_cases hai : a = i
    · subst hai
      exact .of_working (by simpa [joined] using hclosed.of_isActive hi₁)
    · simpa [joined, hai, Routine.AtHome] using hclosed
  | @yields c p hc hmain hyield =>
    obtain ⟨l, hout⟩ := ht.exists_listener hc hmain
    rw [routine_yield ht hi hc hout]
    by_cases hai : a = i
    · subst hai
      by_cases hac : a = c
      · subst hac
        exact .inr (.inl (by simp [handedOut]))
      · exact .of_working (by simpa [handedOut, hac] using ha.of_isActive hi)
    · have hac : a ≠ c := by
        rintro rfl
        rcases hyield with hci | ⟨v, next, hci⟩
        · exact hai hci
        · exact hai (hown v next hci).symm
      by_cases hal : a = l
      · subst hal
        have hlis := (ht.listener c a).1 hout
        have hwork := ha.working (by rw [hlis]; rfl) (by rw [hlis]; simp) (by rw [hlis]; simp)
        exact .of_working (by simpa [handedOut, hac] using hwork)
      · simpa [handedOut, hac, hai, hal, Routine.AtHome] using ha

theorem Tidy.atHome_finish (o : Outcome V (Parcel V)) : ((m.finish i o).routine a).AtHome a := by
  rw [routine_finish ht hi]
  by_cases hai : a = i
  · exact .inr (.inr (.inl (by simp [finished, hai])))
  · by_cases hal : (m.routine i).outbox.reader? = some a
    · have hlis := (ht.listener i a).1 (Slot.reader?_eq_some.1 hal)
      have hwork := ha.working (by rw [hlis]; rfl) (by rw [hlis]; simp) (by rw [hlis]; simp)
      exact .of_working (by simpa [finished, hai] using hwork)
    · by_cases hjoin : a ∈ (m.routine i).joiners
      · obtain ⟨x, hx⟩ := (ht.joiner i a).1 hjoin
        have hwork := ha.working (by rw [hx]; rfl) (by rw [hx]; simp) (by rw [hx]; simp)
        exact .of_working (by simpa [finished, hai] using hwork)
      · simpa [finished, hai, hal, hjoin, Routine.AtHome] using ha

end AtHome

/-- A step keeps a body at home through which nobody else hands out. -/
theorem Tidy.atHome_step (ht : m.Tidy) (ha : (m.routine a).AtHome a) (hs : m.step code = some m')
    (hown : ∀ i v next, m.ready.head? = some i →
      (m.routine i).control = .running (.act (.yield a v) next) → i = a) :
    (m'.routine a).AtHome a := by
  obtain ⟨i, ready, hready, ⟨hi, hp, -⟩ | ⟨-, rfl⟩⟩ := ht.step_cases hs
  · cases hp with
    | ends hc hst => exact ht.atHome_finish hi ha _
    | transfers harr htr =>
      obtain ⟨ht₁, hcontrol, -⟩ := harr.own_eq ht hi
      refine htr.atHome ht₁ (hcontrol ▸ hi) (harr.atHome ht hi ha) fun v next hc => ?_
      exact hown i v next (by rw [hready]; rfl) (hcontrol ▸ hc)
  · exact ha

/-! ## Routines whose resume has not come back -/

/-- Routine `j` listens to coroutine `c`, or has just heard of it: an outcome is on its way. -/
def InResume (m : Machine P V σ) (j c : RoutineId) : Prop :=
  (m.routine j).control = .listening c ∨ ∃ o, (m.routine j).control = .returning o

namespace InResume

variable (h : m.InResume j c)
include h

theorem congr (hc : (m'.routine j).control = (m.routine j).control) : m'.InResume j c := by
  unfold InResume
  rwa [hc]

theorem lt : j.val < m.routines.size := by
  refine lt_of_ne_ended ?_
  rcases h with h | ⟨o, h⟩ <;> simp [h]

/-- It waits for no input. -/
theorem ne_reader (ht : m.Tidy) (hin : (m.routine s).inbox = .awaited a) : j ≠ a := by
  rintro rfl
  rcases h with h | ⟨o, h⟩
  · exact (ht.of_reader hin).1 c h
  · exact ht.ne_reader (by rw [h]; rfl) hin rfl

theorem close (ht : m.Tidy) (s : RoutineId) : (m.close s).2.InResume j c := by
  by_cases hin : ∀ r, (m.routine s).inbox ≠ .awaited r
  · rwa [close_eq ht hin]
  · obtain ⟨r, hin⟩ : ∃ r, (m.routine s).inbox = .awaited r := by simpa using hin
    refine h.congr ?_
    rw [routine_close ht hin]
    simp [closed, h.ne_reader ht hin]

variable (ht : m.Tidy) (hi : (m.routine i).control.isActive = true)
include ht hi

theorem arranges (ha : Arranges R i m m₁) : m₁.InResume j c := by
  induction ha with
  | refl => exact h
  | inward _ hq _ ih => exact ih.congr (hq.control j)
  | @grows m₁ ha x hx ih =>
    exact ih.congr (congrArg Routine.control (routine_grow_of_lt ih.lt))
  | closes ha s ih => exact ih.close (ha.own_eq ht hi).1 s

/-- Others hand outputs to it, or leave it alone. -/
theorem transfers (hji : j ≠ i) (htr : m.Transfers i m') : m'.InResume j c := by
  have hover : ∀ {d : RoutineId} {t : Status} {x : Input V}, (m.status d).isResumable = true →
      (m.handOver i d t x).InResume j c := by
    intro d t x hd
    obtain ⟨r, hin⟩ := ht.exists_reader hd
    refine h.congr ?_
    rw [routine_handOver ht hi hd hin]
    simp [handedOver, hji, h.ne_reader ht hin]
  cases htr with
  | goes hd =>
    refine h.congr ?_
    rw [setControl, routine_update_of_ne hji.symm]
  | resumes p hd hmain hst => exact hover hd
  | cancels hd hmain hst => exact hover (by rw [hd]; rfl)
  | @disposes d r answer hin hmain hd =>
    refine (h.close ht d).congr ?_
    rw [routine_join (ht.isActive_close hi hin) hd]
    simp [joined, hji]
  | @yields d p hd hmain hown =>
    obtain ⟨l, hout⟩ := ht.exists_listener hd hmain
    by_cases hjl : j = l
    · subst hjl
      refine .inr ⟨.value p, ?_⟩
      rw [routine_yield ht hi hd hout]
      simp [handedOut, hji]
    · refine h.congr ?_
      rw [routine_yield ht hi hd hout]
      simp [handedOut, hji, hjl]

theorem finish (hji : j ≠ i) (o : Outcome V (Parcel V)) : (m.finish i o).InResume j c := by
  by_cases hjl : (m.routine i).outbox.reader? = some j
  · refine .inr ⟨o, ?_⟩
    rw [routine_finish ht hi]
    simp [finished, hji, hjl]
  · have hjoin : j ∉ (m.routine i).joiners := by
      intro hmem
      obtain ⟨x, hx⟩ := (ht.joiner i j).1 hmem
      rcases h with h | ⟨o, h⟩ <;> cases h.symm.trans hx
    refine h.congr ?_
    rw [routine_finish ht hi]
    simp [finished, hji, hjl, hjoin]

end InResume

/-- Only a step of its own takes a routine out of a resume. -/
theorem InResume.step (h : m.InResume j c) (ht : m.Tidy) (hs : m.step code = some m')
    (hne : m.ready.head? ≠ some j) : m'.InResume j c := by
  obtain ⟨i, ready, hready, ⟨hi, hp, -⟩ | ⟨-, rfl⟩⟩ := ht.step_cases hs
  · have hji : j ≠ i := by
      rintro rfl
      exact hne (by rw [hready]; rfl)
    cases hp with
    | ends hc hst => exact h.finish ht hi hji _
    | transfers harr htr =>
      obtain ⟨ht₁, hcontrol, -⟩ := harr.own_eq ht hi
      exact (h.arranges ht hi harr).transfers ht₁ (hcontrol ▸ hi) hji htr
  · exact h

end Machine

end OneShot
