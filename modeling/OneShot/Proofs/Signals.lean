import OneShot.Proofs.Working

/-!
# Steps that take a signal

A routine that takes the signal of a scope gives an effect to the clause for it, or forwards it, and gives
the value of a body to the scope's finish. In both cases the signal came while the body of the scope was
not at work.
-/

namespace OneShot

variable {P V σ : Type}

namespace Signal

/-- What scope `s` makes of the signal of its suspended body: the effect, its argument, and the
continuation to go on with. -/
def offer? (s : RoutineId) : Signal V → Option (Effect × Boxed V × Cont)
  | .perform e b => some (e, b, .direct s)
  | .forward e b k => some (e, b, .through s k)
  | .done _ => none

theorem of_offer {x : Signal V} {s : RoutineId} {e : Effect} {b : Boxed V} {k : Cont}
    (h : x.offer? s = some (e, b, k))
    (hsignal : (Outcome.value (.signal x) : Outcome V (Parcel V)).IsSignal) :
    ∃ q, x.need? = some q ∧ k.keys = ⟨q, s⟩ :: x.keys ∧ e.Suits b := by
  cases x with
  | perform e b =>
    obtain ⟨rfl, rfl, rfl⟩ : _ ∧ _ ∧ _ := by simpa [offer?] using h
    exact ⟨.datum, rfl, rfl, hsignal⟩
  | forward e b k =>
    obtain ⟨rfl, rfl, rfl⟩ : _ ∧ _ ∧ _ := by simpa [offer?] using h
    exact ⟨.result, rfl, rfl, hsignal⟩
  | done b => cases h

end Signal

namespace Machine

open Control

variable {code : P → Entry V → Code P V σ V} {m₀ m m' : Machine P V σ} {i s c : RoutineId}
  {o : Outcome V (Parcel V)} {hand hand' : List Key} {loose : List RoutineId}

/-- A scope that is held loosely, and whose body waits, can be resumed. -/
theorem Counted.tighten {w : Option RoutineId} {y : Key} (h : m.Counted w hand (y.scope :: loose))
    (hw : m.Waits y) (hfree : m.tokens w ⟨.datum, y.scope⟩ + m.tokens w ⟨.result, y.scope⟩ +
      countKeys y.scope hand = 0) : m.Counted w (y :: hand) loose where
  held s := by
    have hold := h.held s
    simp only [countKeys_cons, List.count_cons, beq_iff_eq] at hold ⊢
    omega
  single s := by
    have hold := h.single s
    simp only [countKeys_cons]
    by_cases hs : y.scope = s
    · subst hs
      simp only [if_true]
      omega
    · simp only [hs, if_false]
      omega
  waits z hz := by
    by_cases hzy : z = y
    · exact hzy ▸ hw
    · refine h.waits z ?_
      rwa [List.count_cons_of_ne (Ne.symm hzy)] at hz
  entries := h.entries
  owners := h.owners

/-- What is known when a routine takes a signal that suspended the body of scope `s`. -/
theorem Sound.pending (h : m.Sound) {q : Mark} (hc : (m.routine i).control = .returning o)
    (hneed : o.signal?.bind Signal.need? = some q) {st : List (Frame P V σ)}
    (hst : (m.routine i).stack = .dispatch s :: st) :
    m.Waits ⟨q, s⟩ ∧ m.tokens (some i) ⟨.datum, s⟩ + m.tokens (some i) ⟨.result, s⟩ +
      countKeys s (m.routine i).control.keys = 0 := by
  have hi : i.val < m.routines.size := lt_of_ne_ended (by simp [hc])
  have hpending : (m.routine i).pending? = some ⟨q, s⟩ := by
    simp [Routine.pending?, hc, Control.need?, hneed, hst, awaitedScope?]
  have hd := tokens_known hi ⟨.datum, s⟩
  have hq := tokens_known hi ⟨.result, s⟩
  have hsingle := h.counted.single s
  rw [hpending] at hd hq
  simp only [countKeys_nil] at hsingle
  have hcount : (some (⟨q, s⟩ : Key)).toList.count ⟨.datum, s⟩ +
      (some (⟨q, s⟩ : Key)).toList.count ⟨.result, s⟩ = 1 := by
    cases q <;> simp
  rw [countKeys_eq]
  refine ⟨h.counted.waits ⟨q, s⟩ ?_, by omega⟩
  have hy := tokens_known hi ⟨q, s⟩
  rw [hpending] at hy
  simp only [Option.toList_some, List.count_singleton_self] at hy
  omega

/-- A change of one routine that leaves its ways to resume as they are. -/
theorem tokens_update {w : Option RoutineId} {f : Routine P V σ → Routine P V σ}
    (hf : ∀ y, ((m.update s f).known w s).tokens y = (m.known w s).tokens y) (y : Key) :
    (m.update s f).tokens w y = m.tokens w y := by
  unfold tokens
  rw [size_update]
  refine congrArg (· + _) (sumTo_congr fun j _ => ?_)
  by_cases hj : s = j
  · exact hj ▸ hf y
  · simp only [known, routine_update_of_ne hj]

/-- The body of a scope waits whose signal has come: the scope is held for the continuation. -/
theorem Works.holdPending {q : Mark} (h : m₀.Works i m hand []) (hw : m.Waits ⟨q, s⟩)
    (hfree : m.tokens (some i) ⟨.datum, s⟩ + m.tokens (some i) ⟨.result, s⟩ +
      countKeys s hand = 0)
    (hpos : 0 < m.holders s) (hcarries : m₀.Carries ⟨q, s⟩) :
    m₀.Works i (m.hold s) (⟨q, s⟩ :: hand) [] := by
  obtain ⟨hsome, hstatus, hneed⟩ := hw
  have hlt := lt_of_scope hsome
  obtain ⟨c, hc⟩ := Option.isSome_iff_exists.1 hsome
  have hself : (m.hold s).routine s =
      { m.routine s with scope := some { c with holders := c.holders + 1 } } := by
    rw [hold, routine_update_self hlt, hc]
    rfl
  have hinto : ((m.hold s).routine s).into? = (m.routine s).into? := by
    have hpos' : 0 < c.holders := by simpa [holders, hc] using hpos
    simp [Routine.into?, hself, hc, hpos']
  have htokens : ∀ y, (m.hold s).tokens (some i) y = m.tokens (some i) y := by
    refine tokens_update fun y => ?_
    by_cases hsi : s = i
    · subst hsi
      rw [known_self, known_self, Routine.tokens_atWork, Routine.tokens_atWork]
      exact congrArg (fun t => (Option.map _ t).toList.count y) hinto
    · have hne : some i ≠ some s := fun heq => hsi (Option.some.inj heq).symm
      rw [known_of_ne hne, known_of_ne hne]
      refine Routine.tokens_congr ?_ ?_ ?_ hinto y
      · exact (congrArg (fun r => Control.keys (Routine.control r)) hself).trans rfl
      · exact (congrArg (fun r => Control.need? (Routine.control r)) hself).trans rfl
      · exact (congrArg Routine.stack hself).trans rfl
  have hwork := h.atWork.hold hsome hpos
  refine ⟨?_, hwork.linked, hwork.counted.tighten ⟨?_, ?_, ?_⟩ ?_, hwork.reclaimed⟩
  · have hb := h.beside.hold hpos
    refine ⟨hb.lt, hb.size, hb.abides, hb.own, hb.stack, hb.rests, hb.fresh, ?_⟩
    rintro y (hy | hy)
    · exact hb.carried y (.inl hy)
    · rcases List.mem_cons.1 hy with rfl | hy
      · exact hcarries
      · exact hb.carried y (.inr hy)
  · rw [hself]
    rfl
  · rw [hself]
    exact hstatus
  · rw [hself]
    exact hneed
  · rw [htokens, htokens]
    exact hfree

/-- An effect suits the clause that a scope has for it. -/
theorem Linked.suits_of_lookup {w : Option RoutineId} (h : m.Linked w) {scope : Scope P}
    {e : Effect} {cl : Clause P} (hs : (m.routine s).scope = some scope)
    (hlookup : scope.clauses.lookup e = some cl) : cl.Suits e := by
  refine h.clauses s scope hs e cl ?_
  generalize scope.clauses = l at hlookup
  induction l with
  | nil => cases hlookup
  | cons x l ih =>
    obtain ⟨e', cl'⟩ := x
    rw [List.lookup_cons] at hlookup
    split at hlookup
    · next heq =>
      obtain rfl : e = e' := by simpa using heq
      obtain rfl : cl' = cl := by simpa using hlookup
      exact List.mem_cons_self
    · exact List.mem_cons_of_mem _ (ih hlookup)

/-- A step ends with a handler function that owns the continuation in hand. -/
theorem Works.callOwning {k : Cont} (h : m₀.Works i m k.keys [])
    (hst : Settled (m.routine i).role (m.routine i).stack) (c : ContId → Code P V σ V) :
    m₀.Follows i (m.callOwning i k c) := by
  have hkeys : k.keys ++ [] = k.keys := List.append_nil _
  have hbeside := (Beside.keepCont (hkeys ▸ h.beside)).pushFrame (.owning (m.keepCont k).1)
  have hwork := AtWork.enterOwning (hkeys ▸ h.atWork)
  have hself : (((m.keepCont k).2.pushFrame i (.owning (m.keepCont k).1)).routine i) =
      { m.routine i with stack := .owning (m.keepCont k).1 :: (m.routine i).stack } :=
    routine_update_self h.lt _
  refine Works.run ⟨hbeside, hwork⟩ ?_ _
  rw [hself]
  exact (settled_owning _).2 hst

/-- A step ends with an effect that is given to the clause for it, or forwarded. -/
theorem Works.claim {scope : Scope P} {e : Effect} {b : Boxed V} {k : Cont}
    (h : m₀.Works i m k.keys []) (hst : Settled (m.routine i).role (m.routine i).stack)
    (hs : (m.routine s).scope = some scope) (hb : e.Suits b)
    (hoffered : ∀ y ∈ k.keys, ∃ l, m₀.Offers l y) :
    m₀.Follows i (m.claim code i scope e b k) := by
  unfold Machine.claim
  cases hlookup : scope.clauses.lookup e with
  | some cl =>
    have hsuits := h.atWork.linked.suits_of_lookup hs hlookup
    cases e with
    | declared d =>
      cases cl with
      | function p => cases b <;> first | exact h.callOwning hst _ | exact False.elim hb
      | arms choice => exact False.elim hsuits
    | exception =>
      cases cl with
      | function p => exact False.elim hsuits
      | arms choice => cases b <;> first | exact h.callOwning hst _ | exact False.elim hb
  | none => exact Works.suspend (q := .result) (x := .forward e b k) h scope.ctx hst rfl rfl hoffered hb

/-- A step ends with the value of a body. -/
theorem Works.conclude {scope : Scope P} {b : Boxed V} (h : m₀.Works i m [] [])
    (hst : Settled (m.routine i).role (m.routine i).stack)
    (hs : (m.routine s).scope = some scope) (hb : b.mark? = some scope.mark)
    (hpos : 0 < scope.holders) (hne : i ≠ s)
    (hfrom : ∀ t, scope.finish = .into (some t) → m₀.MayResume i t) :
    m₀.Follows i (m.conclude code i s scope b) := by
  unfold Machine.conclude
  split
  · exact h.replyPlain hst trivial
  · exact h.run hst _
  · next t hfin =>
    have hmark : scope.mark = .result := by rw [Scope.mark, hfin]
    have hwork := h.atWork.cutFinish hs hfin hpos
    refine (h.beside.cutFinish hs hfin).conclude hwork (hfrom t hfin) ?_ (hmark ▸ hb)
    rw [routine_update_of_ne hne.symm]
    exact hst
  · exact h.replyPlain hst trivial
  · exact h.replyPlain hst trivial

/-- A scope has a holder that a frame of the routine at work holds. -/
theorem AtWork.holders_pos_of_stack (h : m.AtWork i hand loose [])
    (hst : 0 < ((m.routine i).stack.map (Frame.holds s)).sum) : 0 < m.holders s := by
  have hheld := h.counted.held s
  have hle := le_sumTo (fun j => (m.known (some i) j).holds s) h.lt
  simp only [known_self, Routine.holds_atWork] at hle
  simp only [load] at hheld
  omega

/-- A routine that takes the signal of a suspended body holds its scope for the continuation. -/
theorem Sound.worksOffer {x : Signal V} {e : Effect} {b : Boxed V} {k : Cont}
    {st : List (Frame P V σ)} (h : m.Sound)
    (hc : (m.routine i).control = .returning (.value (.signal x)))
    (hst : (m.routine i).stack = .dispatch s :: st) (hx : x.offer? s = some (e, b, k)) :
    m.Works i ((m.update i fun r => { r with stack := st }).hold s) k.keys [] ∧
      (m.routine s).scope.isSome ∧ s ≠ i ∧ e.Suits b ∧ Entered (m.routine i).role s st ∧
      ∀ y ∈ k.keys, m.Offers i y := by
  have hactive : (m.routine i).control.isActive = true := by rw [hc]; rfl
  have hposture := h.linked.posture i (by simp)
  simp only [Routine.Posture, hc, hst, Fits] at hposture
  obtain ⟨hsignal, hentered⟩ := hposture
  obtain ⟨q, hneed, hkeys, hsuits⟩ := Signal.of_offer hx hsignal
  -- The body waits, and the signal brings the only way to resume it.
  obtain ⟨hw, hfree⟩ := h.pending (q := q) hc hneed hst
  have hne : s ≠ i := by
    rintro rfl
    exact h.linked.not_waits hactive hw
  have hoffers : m.Offers i ⟨q, s⟩ := by
    apply Or.inr
    simp [Routine.pending?, hc, Control.need?, Outcome.signal?, hneed, hst, awaitedScope?]
  have hxkeys : (m.routine i).control.keys = x.keys := by rw [hc]; rfl
  have hwork : m.Works i m x.keys [] :=
    hxkeys ▸ h.works hactive fun c t => by simp [Routine.entries, hst]
  have hpop := hwork.popFrame hst (fun _ => rfl) (fun _ => rfl)
  have hself : (m.update i fun r => { r with stack := st }).routine i =
      { m.routine i with stack := st } := routine_update_self hwork.lt _
  have hpos : 0 < (m.update i fun r => { r with stack := st }).holders s := by
    apply hpop.atWork.holders_pos_of_stack
    rw [hself]
    exact hentered.holds_pos
  have htokens : ∀ y, (m.update i fun r => { r with stack := st }).tokens (some i) y =
      m.tokens (some i) y := tokens_update fun y => by
    have hinto : ((m.update i fun r => { r with stack := st }).routine i).into? =
        (m.routine i).into? := by
      rw [hself]
      rfl
    rw [known_self, known_self, Routine.tokens_atWork, Routine.tokens_atWork, hinto]
  have hw' : (m.update i fun r => { r with stack := st }).Waits ⟨q, s⟩ := by
    unfold Waits
    rw [routine_update_of_ne hne.symm]
    exact hw
  refine ⟨hkeys ▸ hpop.holdPending hw' ?_ hpos (.inr ⟨i, hoffers.carriedBy⟩), hw.1, hne, hsuits,
    hentered, ?_⟩
  · rw [htokens, htokens, ← hxkeys]
    exact hfree
  · intro y hy
    rw [hkeys] at hy
    rcases List.mem_cons.1 hy with rfl | hy
    · exact hoffers
    · exact .inl ⟨x, hc, hy⟩

/-- A step takes the signal of a suspended body as the scope takes its effect. -/
theorem dispatch_eq_claim {x : Signal V} {e : Effect} {b : Boxed V} {k : Cont} {scope : Scope P}
    (hs : (m.routine s).scope = some scope) (hx : x.offer? s = some (e, b, k)) :
    m.dispatch code i s x = (m.hold s).claim code i scope e b k := by
  cases x with
  | perform e b =>
    obtain ⟨rfl, rfl, rfl⟩ : _ ∧ _ ∧ _ := by simpa [Signal.offer?] using hx
    simp only [Machine.dispatch, hs]
  | forward e b k =>
    obtain ⟨rfl, rfl, rfl⟩ : _ ∧ _ ∧ _ := by simpa [Signal.offer?] using hx
    simp only [Machine.dispatch, hs]
  | done b => cases hx

variable (code i) in
/-- The clauses do not depend on the number of holders. -/
theorem exists_dispatch_eq_claim {x : Signal V} {e : Effect} {b : Boxed V} {k : Cont}
    (hsome : (m.routine s).scope.isSome) (hx : x.offer? s = some (e, b, k)) :
    ∃ scope, ((m.hold s).routine s).scope = some scope ∧
      m.dispatch code i s x = (m.hold s).claim code i scope e b k := by
  obtain ⟨scope, hscope⟩ := Option.isSome_iff_exists.1 hsome
  refine ⟨{ scope with holders := scope.holders + 1 }, ?_, ?_⟩
  · rw [hold, routine_update_self (lt_of_scope hsome), hscope]
    rfl
  · rw [dispatch_eq_claim hscope hx]
    rfl

/-- Taking a frame off a stack does not concern the scopes. -/
theorem scope_popFrame (i s : RoutineId) (st : List (Frame P V σ)) :
    ((m.update i fun r => { r with stack := st }).routine s).scope = (m.routine s).scope := by
  rw [routine_update]
  split <;> rfl

variable (code) in
/-- A step in which a scope takes an effect of its suspended body. -/
theorem stepOf_claims {x : Signal V} {e : Effect} {b : Boxed V} {k : Cont} {scope : Scope P}
    {st : List (Frame P V σ)} (hc : (m.routine i).control = .returning (.value (.signal x)))
    (hst : (m.routine i).stack = .dispatch s :: st) (hscope : (m.routine s).scope = some scope)
    (hx : x.offer? s = some (e, b, k)) :
    m.stepOf code i =
      ((m.update i fun r => { r with stack := st }).hold s).claim code i scope e b k :=
  (stepOf_returning hc hst).trans (dispatch_eq_claim ((scope_popFrame i s st).trans hscope) hx)

/-- A step ends with the taking of a suspended body's signal. -/
theorem Sound.dispatchOffer {x : Signal V} {e : Effect} {b : Boxed V} {k : Cont}
    {st : List (Frame P V σ)} (h : m.Sound)
    (hc : (m.routine i).control = .returning (.value (.signal x)))
    (hst : (m.routine i).stack = .dispatch s :: st) (hx : x.offer? s = some (e, b, k)) :
    m.Follows i ((m.update i fun r => { r with stack := st }).dispatch code i s x) := by
  obtain ⟨hwork, hsome, hne, hsuits, hentered, hoffers⟩ := h.worksOffer hc hst hx
  have hself : ((m.update i fun r => { r with stack := st }).hold s).routine i =
      { m.routine i with stack := st } := by
    rw [hold, routine_update_of_ne hne, routine_update_self (lt_of_ne_ended (by simp [hc]))]
  obtain ⟨scope, hscope, heq⟩ := exists_dispatch_eq_claim code i
    ((congrArg Option.isSome (scope_popFrame i s st)).trans hsome) hx
  rw [heq]
  refine hwork.claim ?_ hscope hsuits fun y hy => ⟨i, hoffers y hy⟩
  rw [hself]
  exact hentered.settled

/-- Routine `i`, whose stack is `st` below, is about to give the value `b` of a body to the finish of
its scope. -/
structure TakesValue (m : Machine P V σ) (i s : RoutineId) (st : List (Frame P V σ)) (b : Boxed V)
    (scope : Scope P) : Prop where
  scope_eq : (m.routine s).scope = some scope
  ended : (m.routine s).control = .ended
  ne : i ≠ s
  mark : b.mark? = some scope.mark
  held : 0 < scope.holders
  entered : Entered (m.routine i).role s st
  works : m.Works i (m.update i fun r => { r with stack := st }) [] []

theorem Sound.takesValue {b : Boxed V} {st : List (Frame P V σ)} (h : m.Sound)
    (hc : (m.routine i).control = .returning (.value (.signal (.done b))))
    (hst : (m.routine i).stack = .dispatch s :: st) : ∃ scope, m.TakesValue i s st b scope := by
  have hactive : (m.routine i).control.isActive = true := by rw [hc]; rfl
  have hposture := h.linked.posture i (by simp)
  simp only [Routine.Posture, hc, hst, Fits] at hposture
  obtain ⟨-, hentered⟩ := hposture
  have hkeys : (m.routine i).control.keys = [] := by rw [hc]; rfl
  have hwork : m.Works i m [] [] :=
    hkeys ▸ h.works hactive fun c t => by simp [Routine.entries, hst]
  have hpop := hwork.popFrame hst (fun _ => rfl) (fun _ => rfl)
  obtain ⟨hsome, hended, hmark⟩ := h.linked.ending i (by simp) _ s hc rfl (by rw [hst]; rfl)
  obtain ⟨scope, hscope⟩ := Option.isSome_iff_exists.1 hsome
  refine ⟨scope, hscope, hended, ?_, ?_, ?_, hentered, hpop⟩
  · rintro rfl
    exact ne_ended_of_isActive hactive hended
  · rw [hmark b rfl, Routine.role, hscope]
    rfl
  · have hpos : 0 < (m.update i fun r => { r with stack := st }).holders s := by
      apply hpop.atWork.holders_pos_of_stack
      rw [routine_update_self hwork.lt]
      exact hentered.holds_pos
    simpa [holders, scope_popFrame, hscope] using hpos

theorem TakesValue.scope_popped {b : Boxed V} {st : List (Frame P V σ)} {scope : Scope P}
    (h : m.TakesValue i s st b scope) :
    ((m.update i fun r => { r with stack := st }).routine s).scope = some scope :=
  (scope_popFrame i s st).trans h.scope_eq

theorem TakesValue.dispatch_eq {b : Boxed V} {st : List (Frame P V σ)} {scope : Scope P}
    (h : m.TakesValue i s st b scope) :
    (m.update i fun r => { r with stack := st }).dispatch code i s (.done b) =
      (m.update i fun r => { r with stack := st }).conclude code i s scope b := by
  simp only [Machine.dispatch, h.scope_popped]

variable (code) in
/-- A step in which a scope takes the value of its body. -/
theorem TakesValue.stepOf_eq {b : Boxed V} {st : List (Frame P V σ)} {scope : Scope P}
    (h : m.TakesValue i s st b scope)
    (hc : (m.routine i).control = .returning (.value (.signal (.done b))))
    (hst : (m.routine i).stack = .dispatch s :: st) :
    m.stepOf code i = (m.update i fun r => { r with stack := st }).conclude code i s scope b :=
  (stepOf_returning hc hst).trans h.dispatch_eq

/-- Who waits for the value of a scope that is held. -/
theorem Sound.waits_into (h : m.Sound) {scope : Scope P} {t : RoutineId}
    (hscope : (m.routine s).scope = some scope) (hpos : 0 < scope.holders)
    (hfin : scope.finish = .into (some t)) : m.Waits ⟨.result, t⟩ := by
  have hlt : s.val < m.routines.size := lt_of_scope (by rw [hscope]; rfl)
  have hle := le_sumTo (fun j => (m.routine j).tokens ⟨.result, t⟩) hlt
  have hone : 0 < (m.routine s).tokens ⟨.result, t⟩ := by
    have hinto : (m.routine s).into? = some t := by
      simp [Routine.into?, hscope, hpos, hfin, Finish.outer?]
    simp [Routine.tokens, Routine.keys, hinto]
  refine h.counted.waits ⟨.result, t⟩ ?_
  show 0 < sumTo m.routines.size (fun j => (m.routine j).tokens ⟨.result, t⟩) + _ + _
  omega

variable (code) in
/-- The value of a body that has forwarded an effect goes to the body that is answered: the routine
enters its scope. -/
theorem TakesValue.entersOuter {w : V} {t : RoutineId} {st : List (Frame P V σ)} {scope : Scope P}
    (hv : m.TakesValue i s st (.result w) scope) (h : m.Sound)
    (hc : (m.routine i).control = .returning (.value (.signal (.done (.result w)))))
    (hst : (m.routine i).stack = .dispatch s :: st) (hfin : scope.finish = .into (some t)) :
    m.Waits ⟨.result, t⟩ ∧ (∃ ctx, (m.stepOf code i).routine i =
        ({ m.routine i with stack := st } : Routine P V σ).entering t ctx) ∧
      (m.stepOf code i).routine t = (m.routine t).resumed i (.result w) := by
  have hactive : (m.routine i).control.isActive = true := by rw [hc]; rfl
  have hlt := lt_of_isActive hactive
  have hstep := hv.stepOf_eq code hc hst
  simp only [Machine.conclude, hfin] at hstep
  have hw := h.waits_into hv.scope_eq hv.held hfin
  obtain ⟨hsome, hstatus, -⟩ : _ ∧ _ ∧ _ := id hw
  obtain ⟨hinbox, hout, hreading, -⟩ := (h.linked.phase t hsome).suspending hstatus
  obtain ⟨outer, houter⟩ := Option.isSome_iff_exists.1 hsome
  have hit : i ≠ t := by
    rintro rfl
    exact ne_reading_of_isActive hactive i hreading
  have hts : s ≠ t := by
    rintro rfl
    cases hv.ended.symm.trans hreading
  -- The machine before the scope that answers is entered.
  obtain ⟨m₁, hm₁⟩ : ∃ m₁, m₁ = (m.update i fun r => { r with stack := st }).update s fun r =>
      { r with scope := some { scope with finish := .into none } } := ⟨_, rfl⟩
  have hstep' : m.stepOf code i = m₁.enterScope i t (.result w) := by
    rw [hm₁]
    exact hstep
  have ht : m₁.routine t = m.routine t := by
    rw [hm₁, routine_update_of_ne hts, routine_update_of_ne hit]
  have hi : m₁.routine i = { m.routine i with stack := st } := by
    rw [hm₁, routine_update_of_ne hv.ne.symm, routine_update_self hlt]
  have hr := routine_enterScope (m := m₁) (b := .result w) (by rw [ht]; exact houter)
    (by rw [ht]; exact hstatus) (by rw [ht]; exact hinbox) (by rw [ht]; exact hout)
    (by rw [ht]; exact hreading) hit (by rw [hm₁]; simpa using hlt)
  rw [← hstep', hi, ht] at hr
  exact ⟨hw, ⟨outer.ctx, by rw [hr, if_pos rfl]⟩, by rw [hr, if_neg hit.symm, if_pos rfl]⟩

/-- A step ends with the taking of a signal. -/
theorem Sound.dispatch {x : Signal V} {st : List (Frame P V σ)} (h : m.Sound)
    (hc : (m.routine i).control = .returning (.value (.signal x)))
    (hst : (m.routine i).stack = .dispatch s :: st) :
    m.Follows i ((m.update i fun r => { r with stack := st }).dispatch code i s x) := by
  cases x with
  | perform e b => exact h.dispatchOffer hc hst rfl
  | forward e b k => exact h.dispatchOffer hc hst rfl
  | done b =>
    obtain ⟨scope, hv⟩ := h.takesValue hc hst
    have hself : (m.update i fun r => { r with stack := st }).routine i =
        { m.routine i with stack := st } := routine_update_self (lt_of_ne_ended (by simp [hc])) _
    rw [hv.dispatch_eq]
    refine hv.works.conclude ?_ hv.scope_popped hv.mark hv.held hv.ne fun t ht => ?_
    · rw [hself]
      exact hv.entered.settled
    · refine .inr ⟨s, b, st, ?_, hc, hst⟩
      simp [Routine.into?, hv.scope_eq, hv.held, ht, Finish.outer?]

end Machine

end OneShot
