import OneShot.Proofs.Coroutines

/-!
# Work in the middle of a step

`Works` says that a routine is at work: the invariant holds but for what the routine is doing, and other
routines have been left alone so far. `Follows` is what comes of it in the end: a sound machine, and
changes in other routines as `Influences` says. Each way to go on with work, or to end it, has a lemma.
-/

namespace OneShot

variable {P V σ : Type}

namespace Machine

open Control

variable {code : P → Entry V → Code P V σ V} {m₀ m m' : Machine P V σ} {i s c : RoutineId}
  {o : Outcome V (Parcel V)} {hand hand' : List Key} {loose : List RoutineId}

/-- A step of routine `i` leads to a sound machine. -/
structure Follows (m : Machine P V σ) (i : RoutineId) (m' : Machine P V σ) : Prop where
  sound : m'.Sound
  influences : m.Influences i m'

/-- Routine `i` is at work in the middle of a step. -/
structure Works (m₀ : Machine P V σ) (i : RoutineId) (m : Machine P V σ) (hand : List Key)
    (loose : List RoutineId) : Prop where
  beside : m₀.Beside i m hand
  atWork : m.AtWork i hand loose []

/-- A step begins. -/
theorem Sound.works (h : m.Sound) (hi : (m.routine i).control.isActive = true)
    (hentries : ∀ c s, (m.routine i).entries c s = 0) :
    m.Works i m (m.routine i).control.keys [] :=
  ⟨.start (lt_of_isActive hi) _ fun _ hy => .inr ⟨i, .inl hy⟩, h.startWork hi hentries⟩

theorem Beside.waitsPlainly {j : RoutineId} (hb : m₀.Beside i m hand)
    (hc : (m.routine j).control = (m₀.routine j).control) (hw : m.WaitsPlainly j) :
    m₀.WaitsPlainly j := by
  have hnone : ∀ c, (m.routine c).scope = none → (m₀.routine c).scope = none := by
    intro c hnone
    have hsome := (hb.abides c).isSome
    rw [hnone] at hsome
    simpa using hsome.symm
  unfold WaitsPlainly at hw ⊢
  rw [hc] at hw
  cases hc' : (m₀.routine j).control with
  | reading c => rw [hc'] at hw; exact hnone c hw
  | listening c => rw [hc'] at hw; exact hnone c hw
  | joining c a => trivial
  | fresh s => trivial
  | _ => rw [hc'] at hw; exact hw

/-- What another routine has of a message that is exchanged with a coroutine that code has made. -/
theorem Beside.touches_eased {j : RoutineId} (hb : m₀.Beside i m hand) (he : Eases i m m')
    (hj : j ≠ i) (hlt : j.val < m₀.routines.size) : m₀.Touches i j (m'.routine j) := by
  have hslots := he.slots j
  rw [(hb.abides j).isSome] at hslots
  cases hb.rests j hj hlt with
  | spared hs hc =>
    rw [hs] at hslots
    refine .eased hslots ?_
    rcases he.control j hj with heq | ⟨hw, heased⟩
    · exact .inl (heq.trans hc)
    · exact .inr ⟨hb.waitsPlainly hc hw, heased⟩
  | closed hsome hstatus hs hc =>
    refine .rests (.closed hsome hstatus ((hslots hsome).trans hs) ?_)
    rcases he.control j hj with heq | ⟨hw, -⟩
    · exact heq.trans hc
    · rw [WaitsPlainly, hc] at hw
      exact hw.elim

/-- Messages that are exchanged with coroutines that code has made concern plain waits only. -/
theorem Beside.eases (hb : m₀.Beside i m []) (he : Eases i m m')
    (hended : (m₀.routine i).scope.isSome → (m'.routine i).control ≠ .ended)
    (hsignal : ∀ o, (m'.routine i).control = .returning o → o.signal? = none)
    (hkeys : (m'.routine i).control.keys = []) : m₀.Influences i m' := by
  have hneed : (m'.routine i).control.need? = none := by
    cases hc : (m'.routine i).control with
    | returning o => simp [Control.need?, hsignal o hc]
    | _ => rfl
  have hkept : m'.kept = m.kept := by rw [kept, he.conts, kept]
  constructor
  case size => exact hb.size.trans he.size.ge
  case own => exact (hb.abides i).trans (.of_eq (he.scope i))
  case moves =>
    intro hsome
    refine .on ((he.slots i ?_).trans hb.own) (hended hsome)
    rwa [(hb.abides i).isSome]
  case abides => exact fun j _ _ => (hb.abides j).trans (.of_eq (he.scope j))
  case stack => exact fun j hj _ => (he.stack j hj).trans (hb.stack j hj)
  case touches => exact fun j hj hlt => hb.touches_eased he hj hlt
  case kept =>
    rw [hkept]
    exact fun y hy => hb.carried y (.inl hy)
  case carried =>
    intro j y hy
    refine .inl (.inr ⟨j, ?_⟩)
    by_cases hj : j = i
    · rw [CarriedBy, Routine.pending?, hj, hkeys, hneed] at hy
      rcases hy with hy | hy <;> cases hy
    · refine hb.carriedBy hj ?_
      rcases he.control j hj with heq | ⟨-, heased⟩
      · rwa [CarriedBy, Routine.pending?, heq, he.stack j hj] at hy
      · rw [CarriedBy, Routine.pending?, heased.keys_eq_nil.1, heased.keys_eq_nil.2] at hy
        rcases hy with hy | hy <;> cases hy
  case offered =>
    intro j y hy
    refine .inl ?_
    by_cases hj : j = i
    · refine absurd hy (not_offers fun x hx => ?_)
      rw [hj] at hx
      cases hsignal _ hx
    · refine hb.offers hj ?_
      rcases he.control j hj with heq | ⟨-, heased⟩
      · rwa [Offers, Routine.pending?, heq, he.stack j hj] at hy
      · refine absurd hy (not_offers fun x hx => ?_)
        rw [hx] at heased
        exact heased
  case opened =>
    intro z hz hsome
    rw [he.scope z, hb.scope_eq_none hz] at hsome
    cases hsome
  case done => exact fun b z hb' => by cases hsignal _ hb'

namespace Works

theorem lt (h : m₀.Works i m hand loose) : i.val < m.routines.size := h.atWork.lt

/-- The routine changes something that is not counted. -/
theorem update (h : m₀.Works i m hand loose) {f : Routine P V σ → Routine P V σ}
    (hslots : ∀ r, (f r).slots = r.slots) (hscope : ∀ r, (f r).scope = r.scope)
    (hwork : (m.update i f).AtWork i hand loose []) : m₀.Works i (m.update i f) hand loose :=
  ⟨h.beside.update hslots hscope, hwork⟩

theorem pushFrame (h : m₀.Works i m hand loose) {f : Frame P V σ} (hf : ∀ s, f.holds s = 0)
    (hf' : ∀ k, f.owns k = 0) : m₀.Works i (m.pushFrame i f) hand loose :=
  ⟨h.beside.pushFrame f, h.atWork.pushFrame hf hf'⟩

theorem popFrame (h : m₀.Works i m hand loose) {f : Frame P V σ} {st : List (Frame P V σ)}
    (hst : (m.routine i).stack = f :: st) (hf : ∀ s, f.holds s = 0) (hf' : ∀ k, f.owns k = 0) :
    m₀.Works i (m.update i fun r => { r with stack := st }) hand loose :=
  h.update (fun _ => rfl) (fun _ => rfl) (h.atWork.popFrame hst hf hf')

theorem takeCont (h : m₀.Works i m hand loose) (k : ContId) :
    m₀.Works i (m.takeCont k).2 (m.keptAt k ++ hand) loose :=
  ⟨h.beside.takeCont k, h.atWork.takeCont k⟩

theorem letGo (h : m₀.Works i m hand (s :: loose)) : m₀.Works i (m.letGo s) hand loose := by
  obtain ⟨hwork, hf⟩ := h.atWork.letGo
  exact ⟨h.beside.fades hf h.atWork, hwork⟩

theorem releaseAt (h : m₀.Works i m hand loose) (k : ContId) :
    m₀.Works i (m.releaseAt k) hand loose := by
  obtain ⟨hwork, hf⟩ := h.atWork.releaseAt k
  have htake := h.takeCont k
  exact ⟨(htake.beside.weaken fun y hy => List.mem_append_right _ hy).fades hf htake.atWork, hwork⟩

/-- A step ends: the routine waits for nothing. -/
theorem finish {c : Control P V σ} (h : m₀.Works i m [] []) (hc : c.isActive = true)
    (hp : Routine.Posture { m.routine i with control := c })
    (hneed : c.need? = none) (hkeys : c.keys = [])
    (hend : awaitedScope? (m.routine i).stack = none)
    (hentries : ∀ d s st, (m.routine i).stack ≠ .registered (.context d) s :: st) :
    m₀.Follows i (m.setControl i c) where
  sound := h.atWork.finish hc hp hneed hkeys (by simp [hend]) hentries
  influences := h.beside.finish h.lt (ne_ended_of_isActive hc) hkeys hneed (by simp [hend])

/-- A step ends with code that runs on. -/
theorem run (h : m₀.Works i m [] []) (hst : Settled (m.routine i).role (m.routine i).stack)
    (c : Code P V σ V) : m₀.Follows i (m.setControl i (.running c)) :=
  h.finish rfl hst rfl rfl (awaitedScope?_eq_none hst) fun d => hst.ne_registered (.context d)

/-- A step ends with an outcome for the topmost frame, which does not wait for a scope. -/
theorem reply (h : m₀.Works i m [] []) (hfits : Fits (m.routine i).role o (m.routine i).stack)
    (hneed : o.signal?.bind Signal.need? = none)
    (hend : awaitedScope? (m.routine i).stack = none)
    (hentries : ∀ d s st, (m.routine i).stack ≠ .registered (.context d) s :: st) :
    m₀.Follows i (m.reply i o) :=
  h.finish rfl hfits hneed (keys_of_need?_eq_none hneed) hend hentries

/-- A step ends with a plain outcome for code. -/
theorem replyPlain (h : m₀.Works i m [] [])
    (hst : Settled (m.routine i).role (m.routine i).stack) (ho : o.IsPlain) :
    m₀.Follows i (m.reply i o) := by
  refine h.reply (hst.fits ho) ?_ (awaitedScope?_eq_none hst) fun d =>
    hst.ne_registered (.context d)
  rw [ho.signal?_eq_none]
  rfl

/-- A step ends with the opening of a scope. -/
theorem openScope {scope : Scope P} {start : Start P V} (h : m₀.Works i m hand [])
    (h0 : scope.holders = 0) (hopened : scope.ctx.id.val < m.contexts.size)
    (hclauses : ∀ e c, (e, c) ∈ scope.clauses → c.Suits e)
    (hfinish : ∀ t, scope.finish = .into (some t) → t.val < m.routines.size)
    (hstart : start.role = some scope.mark) (hready : start.IsReady)
    (hst : Settled (m.routine i).role (m.routine i).stack)
    (hkeys : (Control.starting start (.boxed .start) : Control P V σ).keys ++ scope.keysWith 1 =
      hand) : m₀.Follows i (m.openScope i scope start) where
  sound := h.atWork.openScope h0 hopened hclauses hfinish hstart hready hst hkeys
  influences := h.beside.openScope h.lt h0 fun _ hy => hkeys ▸ hy

/-- A step ends with the suspending of the body at a frame that waits, or with a failure if nobody
listens. -/
theorem suspend {q : Mark} {x : Signal V} {f : Frame P V σ} (h : m₀.Works i m x.keys [])
    (ctx : Context) (hst : Settled (m.routine i).role (m.routine i).stack)
    (hf : f.need? = some q) (hx : x.need? = some q)
    (hoffered : ∀ y ∈ x.keys, ∃ l, m₀.Offers l y)
    (hsignal : (Outcome.value (.signal x) : Outcome V (Parcel V)).IsSignal) :
    m₀.Follows i ((m.pushFrame i f).suspend i ctx.place (.signal x)) := by
  have hrefs : (∀ s, f.holds s = 0) ∧ ∀ k, f.owns k = 0 := by
    cases f <;> first | exact ⟨fun _ => rfl, fun _ => rfl⟩ | cases hf
  have hframe := h.pushFrame hrefs.1 hrefs.2
  have hself : (m.pushFrame i f).routine i =
      { m.routine i with stack := f :: (m.routine i).stack } := routine_update_self h.lt _
  have hstack : ((m.pushFrame i f).routine i).stack = f :: (m.routine i).stack := by rw [hself]
  have hsettled : Settled ((m.pushFrame i f).routine i).role (m.routine i).stack := by
    rw [hself]
    exact hst
  exact ⟨hframe.atWork.suspend ctx hstack hf hsettled hx hsignal,
    hframe.beside.suspend hframe.atWork hoffered ctx⟩

/-- A step ends after messages were exchanged with coroutines that code has made. -/
theorem eases (h : m₀.Works i m [] []) (hs : m'.Sound) (he : Eases i m m')
    (hended : (m'.routine i).control ≠ .ended)
    (hsignal : ∀ o, (m'.routine i).control = .returning o → o.signal? = none)
    (hkeys : (m'.routine i).control.keys = []) : m₀.Follows i m' :=
  ⟨hs, h.beside.eases he (fun _ => hended) hsignal hkeys⟩

/-- A step ends with dealings with a coroutine that code has made. -/
theorem deals (h : m₀.Works i m [] []) (hd : m.Deals i m') : m₀.Follows i m' := by
  have hplain := hd.control
  refine h.eases hd.sound hd.eases ?_ ?_ ?_
  · intro hc
    rw [hc] at hplain
    exact hplain
  · intro o hc
    rw [hc] at hplain
    exact Outcome.IsPlain.signal?_eq_none hplain
  · cases hc : (m'.routine i).control with
    | returning o =>
      rw [hc] at hplain
      exact keys_of_need?_eq_none (by rw [Outcome.IsPlain.signal?_eq_none hplain]; rfl)
    | starting => rw [hc] at hplain; exact hplain.elim
    | _ => rfl

/-- A step ends with the resuming of a continuation. -/
theorem continueWith {k : Cont} {b : Boxed V} (h : m₀.Works i m k.keys [])
    (hst : Settled (m.routine i).role (m.routine i).stack) (hb : b.mark? = some .datum) :
    m₀.Follows i (m.continueWith i k b) := by
  refine ⟨h.atWork.continueWith hst hb, ?_⟩
  cases k with
  | direct s =>
    exact h.beside.enterScope h.atWork
      (.of_carries (q := .datum) (h.beside.carried _ (.inr List.mem_cons_self)))
  | through s inner =>
    have hmem : (⟨.result, s⟩ : Key) ∈ (Cont.through s inner).keys := by simp [Cont.keys]
    obtain ⟨scope, hscope, -⟩ := h.atWork.suspended hmem
    simp only at hscope
    have hpos := h.atWork.holders_pos hmem
    have hbeside := (h.beside.hold hpos).pushFrame (.holding s)
    have hlt : i.val < ((m.hold s).pushFrame i (.holding s)).routines.size := by
      simpa [Machine.pushFrame, Machine.hold] using h.lt
    simp only [Machine.continueWith, hscope]
    refine hbeside.openScope hlt rfl ?_
    simp [Cont.keys, Control.keys, Scope.keysWith, Scope.rejoining, Finish.outer?, or_comm]

end Works

/-- A step ends with the entering of a scope whose body a value answers. -/
theorem Beside.conclude {q : Mark} {b : Boxed V} (h : m₀.Beside i m hand)
    (hwork : m.AtWork i [⟨q, s⟩] [] []) (hfrom : m₀.MayResume i s)
    (hst : Settled (m.routine i).role (m.routine i).stack) (hb : b.mark? = some q) :
    m₀.Follows i (m.enterScope i s b) :=
  ⟨hwork.enterScope hst hb, h.enterScope hwork hfrom⟩

end Machine

end OneShot
