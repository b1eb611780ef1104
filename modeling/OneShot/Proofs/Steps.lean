import OneShot.Proofs.Signals

/-!
# Steps keep machines sound

Every step of a sound machine leads to a sound machine, and does to the other routines only what
`Influences` says. So the invariant holds of every machine that is reached.
-/

namespace OneShot

variable {P V σ : Type}

namespace Machine

open Control

variable {code : P → Entry V → Code P V σ V} {m₀ m m' : Machine P V σ} {i s c : RoutineId}
  {o : Outcome V (Parcel V)} {hand hand' : List Key} {loose : List RoutineId}

/-! ## Giving an outcome to a frame -/

section Unwind

variable {f : Frame P V σ} {st : List (Frame P V σ)}

theorem routine_popFrame (hi : i.val < m.routines.size) (st : List (Frame P V σ)) :
    (m.update i fun r => { r with stack := st }).routine i = { m.routine i with stack := st } :=
  routine_update_self hi _

/-- A frame takes a plain outcome that stands above code. -/
theorem Sound.worksPlain (h : m.Sound) (hc : (m.routine i).control = .returning o)
    (ho : o.signal? = none) (hst : (m.routine i).stack = f :: st)
    (hf : ∀ p s, f ≠ .registered p s) : m.Works i m [] [] := by
  have hactive : (m.routine i).control.isActive = true := by rw [hc]; rfl
  have hkeys : (m.routine i).control.keys = [] := by
    rw [hc]
    exact keys_of_need?_eq_none (by rw [ho]; rfl)
  refine hkeys ▸ h.works hactive fun c s => ?_
  refine Routine.entries_eq_zero (fun d t st' heq => ?_) c s
  exact hf _ _ (List.cons.inj (hst.symm.trans heq)).1

/-- An outcome that carries no signal. -/
theorem signal?_eq_none_of_carries {q : Mark} (h : o.Carries q) : o.signal? = none := by
  match o, h with
  | .value (.boxed b), _ => rfl
  | .failure f, _ => rfl
  | .panic p, _ => rfl

/-- What a step does that gives an outcome to a frame on top of code. -/
theorem Sound.unwindInner (h : m.Sound) (hc : (m.routine i).control = .returning o)
    (hst : (m.routine i).stack = f :: st) (ho : o.IsPlain) (hf : f.isInner = true)
    (hsettled : Settled (m.routine i).role st) :
    m.Follows i ((m.update i fun r => { r with stack := st }).unwind code i o f) := by
  have hwork : m.Works i m [] [] := h.worksPlain hc ho.signal?_eq_none hst fun p s heq => by
    rw [heq] at hf
    cases hf
  have hr := routine_popFrame hwork.lt st
  have hst₁ : Settled ((m.update i fun r => { r with stack := st }).routine i).role
      ((m.update i fun r => { r with stack := st }).routine i).stack := by
    rw [hr]
    exact hsettled
  cases f with
  | next k => exact (hwork.popFrame hst (fun _ => rfl) (fun _ => rfl)).run hst₁ _
  | nested d t =>
    have hpop := hwork.popFrame hst (fun _ => rfl) (fun _ => rfl)
    have hwork' := hpop.update (f := fun r => { r with depth := d, thread := t }) (fun _ => rfl)
      (fun _ => rfl) (hpop.atWork.update hpop.atWork.active rfl rfl rfl rfl rfl (fun _ => rfl)
        (fun _ => le_rfl) (hpop.atWork.owners_update fun _ => le_rfl))
    refine hwork'.replyPlain ?_ ho
    rw [routine_update_self hpop.lt]
    exact hst₁
  | holding s =>
    have hpop : m.Works i (m.update i fun r => { r with stack := st }) [] [s] :=
      ⟨hwork.beside.update (fun _ => rfl) fun _ => rfl, hwork.atWork.popHolding hst⟩
    have hf := hpop.atWork.letGo.2.routine i
    refine hpop.letGo.replyPlain ?_ ho
    rw [hf.role, hf.stack]
    exact hst₁
  | owning k =>
    have hpop := hwork.update (f := fun r => { r with stack := st }) (fun _ => rfl) (fun _ => rfl)
      (hwork.atWork.popOwning hst)
    have hf := (hpop.atWork.releaseAt k).2.routine i
    refine (hpop.releaseAt k).replyPlain ?_ ho
    rw [hf.role, hf.stack]
    exact hst₁
  | _ => cases hf

/-- What a step does that gives the value of a handled body to the frame at the bottom. -/
theorem Sound.unwindBase {q : Mark} (h : m.Sound) (hc : (m.routine i).control = .returning o)
    (hst : (m.routine i).stack = f :: st) (ho : o.IsPlain) (hf : f.base? = some q)
    (hrole : (m.routine i).role = some q) (hnil : st = []) :
    m.Follows i ((m.update i fun r => { r with stack := st }).unwind code i o f) := by
  subst hnil
  have hwork : m.Works i m [] [] := h.worksPlain hc ho.signal?_eq_none hst fun p s heq => by
    rw [heq] at hf
    cases hf
  have hpop := hwork.popFrame hst (fun s => by cases f <;> first | rfl | cases hf)
    fun k => by cases f <;> first | rfl | cases hf
  have hr := routine_popFrame hwork.lt []
  have hreply : ∀ o' : Outcome V (Parcel V), o'.Ends (some q) →
      m.Follows i ((m.update i fun r => { r with stack := [] }).reply i o') := by
    intro o' ho'
    refine hpop.reply ?_ ho'.need?_eq_none ?_ ?_
    · rw [hr]
      exact hrole ▸ ho'
    · rw [hr]
      rfl
    · rw [hr]
      simp
  cases f with
  | handledBody =>
    obtain rfl : q = .datum := (Option.some.inj hf).symm
    obtain ⟨v, rfl⟩ | ⟨f, rfl⟩ | ⟨p, rfl⟩ := ho.cases
    · exact hreply _ rfl
    · exact hreply _ trivial
    · exact hreply _ trivial
  | rejoining =>
    obtain rfl : q = .result := (Option.some.inj hf).symm
    obtain ⟨v, rfl⟩ | ⟨f, rfl⟩ | ⟨p, rfl⟩ := ho.cases
    · exact hreply _ rfl
    · exact hreply _ trivial
    · exact hreply _ trivial
  | _ => cases hf

/-- What a step does that gives an outcome to a frame that waited for it. -/
theorem Sound.unwind (h : m.Sound) (hc : (m.routine i).control = .returning o)
    (hst : (m.routine i).stack = f :: st) :
    m.Follows i ((m.update i fun r => { r with stack := st }).unwind code i o f) := by
  have hactive : (m.routine i).control.isActive = true := by rw [hc]; rfl
  have hi := lt_of_isActive hactive
  have hfits : Fits (m.routine i).role o (f :: st) := by
    have hp := h.linked.posture i (by simp)
    simpa only [Routine.Posture, hc, hst] using hp
  -- The frame gives a plain outcome to the code below it.
  have hplain : o.signal? = none → (∀ p s, f ≠ .registered p s) → (∀ s, f.holds s = 0) →
      (∀ k, f.owns k = 0) → Settled (m.routine i).role st →
      ∀ o' : Outcome V (Parcel V), o'.IsPlain →
        m.Follows i ((m.update i fun r => { r with stack := st }).reply i o') := by
    intro ho hreg hholds howns hsettled o' ho'
    refine ((h.worksPlain hc ho hst hreg).popFrame hst hholds howns).replyPlain ?_ ho'
    rw [routine_popFrame hi]
    exact hsettled
  cases f with
  | registered p s =>
    refine ⟨h.withdraw hc hst, .withdraw hi hc hst fun z hz => ?_⟩
    rw [hst]
    cases p with
    | registry r =>
      rw [awaitedScope?_eq_none hfits.2] at hz
      cases hz
    | context c =>
      obtain ⟨st', rfl, -⟩ := hfits
      exact hz
  | dispatch s =>
    obtain ⟨hsignal, hentered⟩ := hfits
    obtain ⟨x, rfl⟩ | ⟨f, rfl⟩ | ⟨p, rfl⟩ := hsignal.cases
    · exact h.dispatch hc hst
    · exact hplain rfl (by simp) (fun _ => rfl) (fun _ => rfl) hentered.settled _ trivial
    · exact hplain rfl (by simp) (fun _ => rfl) (fun _ => rfl) hentered.settled _ trivial
  | performing =>
    obtain ⟨hcarries, hsettled⟩ := hfits
    have hgo := hplain (signal?_eq_none_of_carries hcarries) (by simp) (fun _ => rfl)
      (fun _ => rfl) hsettled
    obtain ⟨b, rfl, -⟩ | ⟨f, rfl⟩ | ⟨p, rfl⟩ := hcarries.cases
    · cases b <;> exact hgo _ trivial
    · exact hgo _ trivial
    · exact hgo _ trivial
  | forwarding e =>
    obtain ⟨hcarries, hsettled⟩ := hfits
    have hgo := hplain (signal?_eq_none_of_carries hcarries) (by simp) (fun _ => rfl)
      (fun _ => rfl) hsettled
    obtain ⟨b, rfl, -⟩ | ⟨f, rfl⟩ | ⟨p, rfl⟩ := hcarries.cases
    · cases b <;> exact hgo _ trivial
    · cases f <;> exact hgo _ trivial
    · exact hgo _ trivial
  | canceling a =>
    obtain ⟨ho, hsettled⟩ := hfits
    have hgo := hplain ho.signal?_eq_none (by simp) (fun _ => rfl) (fun _ => rfl) hsettled
    obtain ⟨v, rfl⟩ | ⟨f, rfl⟩ | ⟨p, rfl⟩ := ho.cases
    · exact hgo _ trivial
    · cases f <;> exact hgo _ trivial
    · exact hgo _ trivial
  | handledBody =>
    obtain ⟨ho, hsettled⟩ := hfits
    obtain ⟨hrole, hnil⟩ := settled_handledBody.1 hsettled
    exact h.unwindBase hc hst ho rfl hrole hnil
  | rejoining =>
    obtain ⟨ho, hsettled⟩ := hfits
    obtain ⟨hrole, hnil⟩ := settled_rejoining.1 hsettled
    exact h.unwindBase hc hst ho rfl hrole hnil
  | next k => exact h.unwindInner hc hst hfits.1 rfl ((settled_next k).1 hfits.2)
  | nested d t => exact h.unwindInner hc hst hfits.1 rfl ((settled_nested d t).1 hfits.2)
  | holding s => exact h.unwindInner hc hst hfits.1 rfl ((settled_holding s).1 hfits.2)
  | owning k => exact h.unwindInner hc hst hfits.1 rfl ((settled_owning k).1 hfits.2)

end Unwind

/-! ## Running code -/

namespace Works

/-- The machine changes, but neither a routine nor what is kept. -/
theorem congr (h : m₀.Works i m [] []) (hs : m'.SoundBut (some i))
    (hroutines : m'.routines = m.routines) (hconts : m'.conts = m.conts) :
    m₀.Works i m' [] [] :=
  ⟨h.beside.congr hroutines hconts, hs.atWork⟩

theorem grow {x : Routine P V σ} (h : m₀.Works i m [] []) (hx : x.IsNew m.next) :
    m₀.Works i (m.grow x) [] [] := by
  refine ⟨h.beside.grow hx.1 hx.2.1 ?_, (h.atWork.soundBut.grow hx).atWork⟩
  rcases hx.2.2.2 with ⟨-, p, hc⟩ | ⟨-, hc⟩ <;> rw [Routine.isIdle, hc]

/-- A step ends with code that runs on as it has given up a coroutine that code has made. -/
theorem abandonRun {d : RoutineId} (h : m₀.Works i m [] [])
    (hst : Settled (m.routine i).role (m.routine i).stack) (hd : (m.routine d).scope = none)
    (x : Code P V σ V) : m₀.Follows i ((m.abandon d).setControl i (.running x)) := by
  obtain ⟨hclosed, hk, he⟩ := h.atWork.soundBut.close i hd
  have hst' : Settled ((m.abandon d).routine i).role ((m.abandon d).routine i).stack := by
    rw [Machine.abandon, hk.role, hk.stack]
    exact hst
  have hself : ((m.abandon d).setControl i (.running x)).routine i =
      { (m.abandon d).routine i with control := .running x } :=
    routine_update_self hclosed.atWork.lt _
  refine h.eases (hclosed.atWork.run hst' x) (he.trans (.updateSelf fun _ => ⟨rfl, rfl⟩)) ?_ ?_ ?_
  all_goals rw [hself]
  · intro hc
    cases hc
  · intro o hc
    cases hc
  · rfl

/-- What is kept under a name stays in hand under a new one. -/
theorem keep (h : m₀.Works i m [] []) (k : ContId) : m₀.Works i (m.answer i (.keep k)).2 [] [] := by
  have htake := h.takeCont k
  unfold answer
  dsimp only
  unfold keptAt Machine.takeCont at htake
  unfold Machine.takeCont
  cases hk : m.conts.getD k.val none with
  | none =>
    rw [hk] at htake
    exact htake
  | some cont =>
    rw [hk] at htake
    exact ⟨htake.beside.keepCont, htake.atWork.keepCont⟩

/-- A step ends with code that runs on as a question was answered. -/
theorem ask (h : m₀.Works i m [] []) (hst : Settled (m.routine i).role (m.routine i).stack)
    (q : Query P) (c : q.Reply → Code P V σ V) :
    m₀.Follows i ((m.answer i q).2.setControl i (.running (c (m.answer i q).1))) := by
  have hself : ∀ x, (m.grow x).routine i = m.routine i := fun _ => routine_grow_of_lt h.lt
  have hsound := h.atWork.soundBut
  cases q with
  | spawn config body =>
    refine (h.grow (x := .new m.next config (.body body) none)
      ⟨rfl, rfl, rfl, .inl ⟨rfl, body, rfl⟩⟩).run ?_ _
    rw [hself]
    exact hst
  | skip =>
    refine (h.grow (x := .absent) ⟨rfl, rfl, rfl, .inr ⟨rfl, rfl⟩⟩).run ?_ _
    rw [hself]
    exact hst
  | status c => exact h.run hst _
  | busy c => exact h.run hst _
  | abandon d =>
    unfold answer
    dsimp only
    split
    · next hcond =>
      simp only [isCoroutine, Bool.and_eq_true, Option.isNone_iff_eq_none] at hcond
      exact h.abandonRun hst hcond.1.2 _
    · exact h.run hst _
  | openRegistry =>
    exact (h.congr (hsound.openPlaces m.contexts (m.registries.push .empty) le_rfl fun _ => rfl) rfl
      rfl).run hst _
  | registered r => exact h.run hst _
  | register r op => exact (h.congr (hsound.setRegistry r _) rfl rfl).run hst _
  | openContext config =>
    refine (h.congr (hsound.openPlaces (m.contexts.push .empty) m.registries ?_ ?_) rfl rfl).run hst _
    · simp
    · intro d
      simp only [Array.getD_eq_getD_getElem?, Array.getElem?_push]
      split <;> simp_all
  | pending ctx => exact h.run hst _
  | holds k => exact h.run hst _
  | keep k =>
    have hroutine : (m.answer i (.keep k)).2.routine i = m.routine i := by
      unfold answer
      dsimp only
      unfold Machine.takeCont
      cases m.conts.getD k.val none <;> rfl
    exact (h.keep k).run (by rwa [hroutine]) _
  | discard k =>
    have hf := (h.atWork.releaseAt k).2.routine i
    refine (h.releaseAt k).run ?_ _
    rw [hf.role, hf.stack]
    exact hst
  | thread => exact h.run hst _
  | declare =>
    exact (h.congr (hsound.setGlobals m.store (m.effects + 1)) rfl rfl).run hst _

/-- A step ends with a body in a new scope, if the context was opened. -/
theorem onContext {scope : Scope P} (h : m₀.Works i m [] [])
    (hst : Settled (m.routine i).role (m.routine i).stack) (h0 : scope.holders = 0)
    (hclauses : ∀ e c, (e, c) ∈ scope.clauses → c.Suits e)
    (hfinish : ∀ t, scope.finish ≠ .into t) (body : P) :
    m₀.Follows i (m.onContext i scope body) := by
  have hmark : scope.mark = .datum := by
    unfold Scope.mark
    split
    · next t ht => exact absurd ht (hfinish t)
    · rfl
  have hkeys : scope.keysWith 1 = [] := by
    unfold Scope.keysWith Finish.outer?
    cases hf : scope.finish with
    | into t => exact absurd hf (hfinish t)
    | _ => rfl
  unfold Machine.onContext
  split
  · next hopened =>
    exact h.openScope h0 hopened hclauses (fun t ht => absurd ht (hfinish _))
      (by rw [hmark]; rfl) trivial hst (by rw [hkeys]; rfl)
  · exact h.replyPlain hst trivial

/-- A step ends with an operation on a coroutine that code has made. -/
theorem onCoroutine {f : Machine P V σ → Machine P V σ} (h : m₀.Works i m [] [])
    (hst : Settled (m.routine i).role (m.routine i).stack)
    (hop : (m.routine c).scope = none → m.Deals i (f m)) :
    m₀.Follows i (m.onCoroutine i c f) := by
  unfold Machine.onCoroutine
  split
  · next hc =>
    refine h.deals (hop ?_)
    simp only [isCoroutine, Bool.and_eq_true, Option.isNone_iff_eq_none] at hc
    exact hc.2
  · exact h.replyPlain hst trivial

/-- A step ends with the beginning of an operation. -/
theorem begin (h : m₀.Works i m [] []) (hst : Settled (m.routine i).role (m.routine i).stack)
    (a : Act P V) : m₀.Follows i (m.begin code i a) := by
  have hsound := h.atWork.soundBut
  have hperform : ∀ (ctx : Context) e b, Effect.Suits e b →
      m₀.Follows i (m.perform i ctx e b) := by
    intro ctx e b hb
    exact Works.suspend (q := .datum) (x := .perform e b) h ctx hst rfl rfl (fun _ hy => by cases hy) hb
  cases a with
  | call p entry => exact h.run hst _
  | resume c v =>
    exact h.onCoroutine (f := (·.resume i c (.plain v))) hst fun hc => hsound.resume hc hst.listening v
  | resumeOn r c v =>
    exact h.onCoroutine (f := (·.resumeOn i (.registry r) c (.plain v))) hst fun hc => hsound.resumeOn hc hst r v
  | cancel c answer =>
    exact h.onCoroutine (f := (·.cancel i c answer)) hst fun hc => hsound.cancel hc hst answer
  | dispose c answer =>
    exact h.onCoroutine (f := (·.dispose i c answer)) hst fun hc => hsound.dispose hc hst answer
  | yield c v =>
    exact h.onCoroutine (f := (·.yield i c (.plain v))) hst fun hc => hsound.yield hc hst v
  | suspend r v =>
    unfold Machine.begin
    dsimp only
    split
    · next hi =>
      simp only [isCoroutine, Bool.and_eq_true, Option.isNone_iff_eq_none] at hi
      exact h.deals (hsound.suspend hi.2 hst r v)
    · exact h.replyPlain hst trivial
  | perform ctx e v => exact hperform ctx _ _ trivial
  | raise ctx cause => exact hperform ctx _ _ trivial
  | handle ctx hd body =>
    refine h.onContext hst rfl ?_ ?_ body
    · intro e c hc
      simp only [Scope.ofHandler, List.mem_map, Prod.mk.injEq] at hc
      obtain ⟨x, -, rfl, rfl⟩ := hc
      trivial
    · intro t ht
      simp only [Scope.ofHandler] at ht
      split at ht <;> cases ht
  | tryWith ctx arms body =>
    refine h.onContext hst rfl ?_ ?_ body
    · intro e c hc
      simp only [Scope.ofArms, List.mem_singleton, Prod.mk.injEq] at hc
      obtain ⟨rfl, rfl⟩ := hc
      trivial
    · exact fun t ht => by cases ht
  | continueWith k v =>
    have htake := h.takeCont k
    unfold Machine.begin
    dsimp only
    unfold keptAt Machine.takeCont at htake
    unfold Machine.takeCont
    cases hk : m.conts.getD k.val none with
    | none =>
      rw [hk] at htake
      exact Works.replyPlain htake hst trivial
    | some cont =>
      rw [hk] at htake
      refine Works.continueWith ?_ hst rfl
      simpa using htake

end Works

/-- A routine that runs code is at work with nothing in hand. -/
theorem Sound.worksSettled (h : m.Sound) (hi : (m.routine i).control.isActive = true)
    (hkeys : (m.routine i).control.keys = [])
    (hst : Settled (m.routine i).role (m.routine i).stack) : m.Works i m [] [] := by
  exact hkeys ▸ h.works hi (Routine.entries_eq_zero fun d => hst.ne_registered (.context d))

/-- A step executes a node of code. -/
theorem Sound.exec (h : m.Sound) {c : Code P V σ V} (hc : (m.routine i).control = .running c) :
    m.Follows i (m.exec code i c) := by
  have hst : Settled (m.routine i).role (m.routine i).stack := by
    have hp := h.linked.posture i (by simp)
    simpa only [Routine.Posture, hc] using hp
  have hwork := h.worksSettled (by rw [hc]; rfl) (by rw [hc]; rfl) hst
  cases c with
  | pure v => exact hwork.replyPlain hst trivial
  | fail f => exact hwork.replyPlain hst trivial
  | panic p => exact hwork.replyPlain hst trivial
  | act a next =>
    have hframe := hwork.pushFrame (f := .next next) (fun _ => rfl) (fun _ => rfl)
    refine hframe.begin ?_ a
    rw [hwork.atWork.soundBut.routine_pushFrame]
    exact (settled_next next).2 hst
  | ask q next => exact hwork.ask hst q next
  | access change next =>
    exact (hwork.congr (hwork.atWork.soundBut.setGlobals (change m.store) m.effects) rfl rfl).run
      hst _

/-- A body begins. -/
theorem Sound.start (h : m.Sound) {s : Start P V} {p : Parcel V}
    (hc : (m.routine i).control = .starting s p) : m.Follows i (m.start code i s p) := by
  have hactive : (m.routine i).control.isActive = true := by rw [hc]; rfl
  have hi := lt_of_isActive hactive
  have hp := h.linked.posture i (by simp)
  simp only [Routine.Posture, hc] at hp
  obtain ⟨hst, hrole, hready⟩ := hp
  have hwork : m.Works i m (m.routine i).control.keys [] :=
    h.works hactive fun d t => by simp [Routine.entries, hst]
  have hpush : ∀ f : Frame P V σ, (m.pushFrame i f).routine i =
      { m.routine i with stack := f :: (m.routine i).stack } := fun f => routine_update_self hi _
  rw [hc] at hwork
  cases s with
  | body b =>
    have hsettled : Settled (m.routine i).role (m.routine i).stack := by
      rw [hst, ← hrole]
      rfl
    unfold Machine.start
    split
    · exact Works.run hwork hsettled _
    · exact Works.replyPlain hwork hsettled trivial
    · next heq => cases heq
    · next heq => cases heq
  | handled b =>
    refine (Works.pushFrame (f := .handledBody) hwork (fun _ => rfl) (fun _ => rfl)).run ?_ _
    rw [hpush, hst]
    exact settled_handledBody.2 ⟨hrole.symm, rfl⟩
  | rejoin k b =>
    refine (hwork.pushFrame (f := .rejoining) (fun _ => rfl) (fun _ => rfl)).continueWith ?_ hready
    rw [hpush, hst]
    exact settled_rejoining.2 ⟨hrole.symm, rfl⟩

/-- A body that nobody can wake is not ready any more. -/
theorem Sound.pause (h : m.Sound) (hi : (m.routine i).control.isActive = false) :
    (m.pause i).Sound := by
  refine ⟨h.linked.congr (fun _ => rfl) le_rfl le_rfl ?_, h.counted.setReady _, h.reclaimed⟩
  intro j hj hmem
  refine (List.mem_erase_of_ne ?_).2 hmem
  rintro rfl
  rw [hi] at hj
  cases hj

/-! ## Steps -/

/-- The end of a coroutine that code has made concerns plain waits only. -/
theorem Sound.followsEnd (h : m.Sound) (hscope : (m.routine i).scope = none)
    (hc : (m.routine i).control = .returning o) (hst : (m.routine i).stack = []) :
    m.Follows i (m.finish i o) := by
  have hi : i.val < m.routines.size := lt_of_ne_ended (by simp [hc])
  obtain ⟨hsound, heases⟩ := h.finishPlain hscope hc hst
  have hbeside : m.Beside i (m.setControl i .ended) [] :=
    (Beside.start hi [] (by simp)).setControl .ended
  have hended : ((m.finish i o).routine i).control = .ended := by
    have hne : i ≠ ⟨i.val + 1⟩ := fun heq => by
      have hval := congrArg RoutineId.val heq
      simp only at hval
      omega
    have hself : ((m.setControl i .ended).routine i).control = .ended := by
      rw [setControl, routine_update_self hi]
    rcases (heases ⟨i.val + 1⟩).control i hne with heq | ⟨hw, -⟩
    · exact heq.trans hself
    · rw [WaitsPlainly, hself] at hw
      exact hw.elim
  refine ⟨hsound, hbeside.eases (heases i) ?_ ?_ ?_⟩
  · intro hsome
    rw [hscope] at hsome
    cases hsome
  · intro o' ho'
    cases hended.symm.trans ho'
  · rw [hended]
    rfl

/-- A step of a routine that can go on. -/
theorem Sound.stepOf (h : m.Sound) (hi : (m.routine i).control.isActive = true) :
    m.Follows i (m.stepOf code i) := by
  unfold Machine.stepOf
  split
  · next s p hc => exact h.start hc
  · next c hc => exact h.exec hc
  · next o hc =>
    split
    · next hst =>
      by_cases hsome : (m.routine i).scope.isSome
      · exact ⟨h.finishHandled hsome hc hst, h.influences_finishHandled hsome hc hst⟩
      · have hscope : (m.routine i).scope = none := by simpa using hsome
        exact h.followsEnd hscope hc hst
    · next f st hst => exact h.unwind hc hst
  · next hne₁ hne₂ hne₃ =>
    cases hc : (m.routine i).control with
    | starting s p => exact absurd hc (hne₁ s p)
    | running c => exact absurd hc (hne₂ c)
    | returning o => exact absurd hc (hne₃ o)
    | _ => rw [hc] at hi; cases hi

/-- A routine that cannot go on is no longer ready. -/
theorem stepOf_idle (h : (m.routine i).control.isActive = false) : m.stepOf code i = m.pause i := by
  unfold stepOf
  cases hc : (m.routine i).control with
  | starting | running | returning => rw [hc] at h; cases h
  | _ => rfl

/-- A step is one of a routine that can go on, or takes a routine that cannot go on out of those that
are ready. -/
theorem exists_of_step (hs : m.step code = some m') :
    ∃ i ready, m.ready = i :: ready ∧
      ((m.routine i).control.isActive = true ∧ m' = m.stepOf code i ∨
        (m.routine i).control.isActive = false ∧ m' = m.pause i) := by
  obtain ⟨i, hhead, rfl⟩ := head_of_step hs
  obtain ⟨ready, hready⟩ := List.head?_eq_some_iff.1 hhead
  refine ⟨i, ready, hready, ?_⟩
  cases hi : (m.routine i).control.isActive with
  | true => exact .inl ⟨rfl, rfl⟩
  | false => exact .inr ⟨rfl, stepOf_idle hi⟩

/-- Every step keeps a machine sound. -/
theorem Sound.step (h : m.Sound) (hs : m.step code = some m') : m'.Sound := by
  obtain ⟨i, -, -, ⟨hi, rfl⟩ | ⟨hi, rfl⟩⟩ := exists_of_step hs
  · exact (h.stepOf hi).sound
  · exact h.pause hi

theorem Sound.passTurn (h : m.Sound) : m.passTurn.Sound := by
  unfold Machine.passTurn
  split
  · exact h
  · next i rest hready =>
    refine ⟨h.linked.congr (fun _ => rfl) le_rfl le_rfl ?_, h.counted.setReady _, h.reclaimed⟩
    intro j _ hj
    rw [hready] at hj
    simpa [or_comm] using hj

section Initial

variable (store : σ) (c : Code P V σ V)

/-- In the beginning nobody waits for anybody. -/
theorem linked_initial : (initial store c).Linked none := by
  have hr := routine_initial store c
  have hidle : ∀ j, ((initial store c : Machine P V σ).routine j).scope = none ∧
      ((initial store c : Machine P V σ).routine j).inbox = .empty ∧
      ((initial store c : Machine P V σ).routine j).outbox = .empty := by
    intro j
    rcases hr j with ⟨h, -⟩ | h <;> rw [h] <;> exact ⟨rfl, rfl, rfl⟩
  have hcontrol : ∀ j, ((initial store c : Machine P V σ).routine j).control = .running c ∧ j = .main ∨
      ((initial store c : Machine P V σ).routine j).control = .ended := by
    intro j
    rcases hr j with ⟨h, hj⟩ | h <;> rw [h]
    · exact .inl ⟨rfl, hj⟩
    · exact .inr rfl
  constructor
  case working => exact fun i hi => by cases hi
  case posture =>
    intro j _
    rcases hr j with ⟨h, -⟩ | h <;> rw [h] <;> rfl
  case phase =>
    intro s hs
    rw [(hidle s).1] at hs
    cases hs
  case outbox => exact fun d j hj => by cases (hidle d).2.2.symm.trans hj
  case inbox => exact fun d r hd => by cases (hidle d).2.1.symm.trans hd
  case listening =>
    intro j d hj
    rcases hcontrol j with ⟨hc, -⟩ | hc <;> cases hc.symm.trans hj
  case reading =>
    intro j d hj
    rcases hcontrol j with ⟨hc, -⟩ | hc <;> cases hc.symm.trans hj
  case present =>
    intro j d hj
    rcases hcontrol j with ⟨hc, -⟩ | hc <;> rcases hj with hj | hj <;> cases hc.symm.trans hj
  case slots =>
    refine fun d _ => ⟨fun a ha => ?_, fun o ho => ?_⟩
    · cases (hidle d).2.1.symm.trans ha
    · cases (hidle d).2.2.symm.trans ho
  case ending =>
    intro j _ o s ho
    rcases hcontrol j with ⟨hc, -⟩ | hc <;> cases hc.symm.trans ho
  case outer => exact fun s scope t hs => by cases (hidle s).1.symm.trans hs
  case opened => exact fun s scope hs => by cases (hidle s).1.symm.trans hs
  case clauses => exact fun s scope hs => by cases (hidle s).1.symm.trans hs
  case ready =>
    intro j hj
    rcases hcontrol j with ⟨-, rfl⟩ | hc
    · exact List.mem_cons_self
    · rw [hc] at hj
      cases hj
  case main => exact ⟨(hidle .main).1, Nat.one_pos⟩

/-- In the beginning nothing is referred to. -/
theorem counted_initial : (initial store c).Counted none [] [] := by
  have hsum : ∀ g : Routine P V σ → Nat, g (.main c) = 0 →
      sumTo (initial store c : Machine P V σ).routines.size
        (fun j => g ((initial store c : Machine P V σ).known none j)) = 0 := by
    intro g hg
    have hone : (initial store c : Machine P V σ).routines.size = 0 + 1 := rfl
    rw [hone, sumTo_succ]
    exact (Nat.zero_add _).trans hg
  have hkept : (initial store c : Machine P V σ).kept = [] := rfl
  have hload : ∀ s, (initial store c : Machine P V σ).load none s = 0 := fun s => by
    rw [load, hsum _ rfl, hkept]
    rfl
  have htokens : ∀ y, (initial store c : Machine P V σ).tokens none y = 0 := fun y => by
    rw [tokens, hsum _ rfl, hkept]
    rfl
  constructor
  case held =>
    intro s
    have hscope : ((initial store c : Machine P V σ).routine s).scope = none := by
      rcases routine_initial store c s with ⟨h, -⟩ | h <;> rw [h] <;> rfl
    rw [hload, holders, hscope]
    rfl
  case single =>
    intro s
    rw [htokens, htokens]
    exact Nat.zero_le _
  case waits =>
    intro y hy
    rw [htokens] at hy
    exact absurd hy (Nat.lt_irrefl 0)
  case entries =>
    intro d s
    rw [entries, hsum (·.entries d s) rfl]
    rfl
  case owners =>
    intro k
    have hzero : (initial store c : Machine P V σ).owners k = 0 := hsum (·.owns k) rfl
    rw [hzero]
    exact Nat.zero_le _

/-- The machine is sound before its first step. -/
theorem sound_initial : (initial store c).Sound := by
  refine ⟨linked_initial store c, counted_initial store c, fun s scope hs => ?_⟩
  rcases routine_initial store c s with ⟨h, -⟩ | h <;> rw [h] at hs <;> cases hs

end Initial

/-- Every machine that is reached is sound. -/
theorem Reaches.sound {store : σ} {c : Code P V σ V} (h : Reaches code (initial store c) m) :
    m.Sound :=
  h.invariant (fun _ _ hm hs => hm.step hs) (fun _ hm => hm.passTurn) (sound_initial store c)

end Machine

end OneShot
