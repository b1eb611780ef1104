import OneShot.Proofs.Continuing

/-!
# Suspending handled bodies

A handled body that performs or forwards an effect is suspended if somebody listens to it, and tells
the listener the signal. Otherwise nobody can take the signal, and the operation fails.
-/

namespace OneShot

variable {P V σ : Type}

/-- A body that waits for its next input. -/
def Routine.suspended (i : RoutineId) (r : Routine P V σ) : Routine P V σ :=
  { r with status := .suspending, inbox := .awaited i, outbox := .empty, control := .reading i }

/-- A listener to which an output has come. -/
def Routine.told (o : Outcome V (Parcel V)) (r : Routine P V σ) : Routine P V σ :=
  { r with control := .returning o }

namespace Machine

open Control

variable {m m' : Machine P V σ} {i j s : RoutineId} {c : ContextId} {scope : Scope P} {q : Mark}
  {hand : List Key} {loose due : List RoutineId} {p : Place} {x : Signal V}

/-- A routine whose entry stands in the registry of a context runs a handled body of that context,
and somebody listens to it. -/
theorem Linked.listener_of_entry (h : m.Linked (some i)) (hpos : 0 < m.entries (some i) c i) :
    ∃ scope j, (m.routine i).scope = some scope ∧ scope.ctx.id = c ∧
      (m.routine i).status = .running ∧ (m.routine i).inbox = .empty ∧
      (m.routine i).outbox = .awaited j ∧ (m.routine j).control = .listening i ∧ i ≠ j := by
  have hactive := h.working i rfl
  obtain ⟨j, -, hj⟩ := exists_of_sumTo_pos hpos
  have hne : i ≠ j := by
    rintro rfl
    rw [known_self, Routine.entries_atWork] at hj
    exact Nat.lt_irrefl _ hj
  rw [known_of_ne (by simpa using hne)] at hj
  unfold Routine.entries at hj
  split at hj
  · next d t st hst =>
    split at hj
    · next hcond =>
      obtain ⟨rfl, rfl, hentry⟩ := hcond
      cases hc : (m.routine j).control with
      | listening u =>
        have hl := h.listening j u hc
        unfold Listens at hl
        split at hl
        · next scope hu =>
          obtain ⟨ho, st', hst', -⟩ := hl
          rw [hst] at hst'
          simp only [List.cons.injEq, Frame.registered.injEq, Context.place,
            Place.context.injEq] at hst'
          obtain ⟨⟨rfl, rfl⟩, -⟩ := hst'
          have hphase := h.phase t (by simp [hu])
          have hrun := hphase.running_of_awaited (by rw [ho]; rfl)
          exact ⟨scope, j, hu, rfl, hrun, (hphase.running hrun).1, ho, hc, hne⟩
        · next hu =>
          rw [hst] at hl
          exact absurd hl (not_settled rfl rfl)
      | returning o =>
        rw [hc] at hentry
        have hended := h.ending j (by simpa using hne) o t hc (by simpa [hasEntry] using hentry)
          (by rw [hst]; rfl)
        exact absurd hended.2.1 (ne_ended_of_isActive hactive)
      | _ => rw [hc] at hentry; simp [hasEntry] at hentry
    · omega
  · omega

/-- Taking the newest entry of a routine leaves one less of it. -/
theorem popWhere_eq {g : Registry RoutineId} (h : i ∈ g.items) :
    g.popWhere (· == i) = (some i, ⟨g.items.erase i⟩) := by
  unfold Registry.popWhere
  rw [List.erase_eq_eraseP']
  congr 1
  obtain ⟨x, hx⟩ := Option.isSome_iff_exists.1
    ((List.find?_isSome (p := (· == i))).2 ⟨i, h, beq_self_eq_true i⟩)
  rw [hx]
  simpa using List.find?_some hx

/-- A listener waits for an output, and is given one. -/
theorem sendOutput_awaited {o : Outcome V (Parcel V)} (hout : (m.routine i).outbox = .awaited j)
    (ho : ∀ p, o ≠ .panic p) :
    m.sendOutput i o = ((m.update i fun r => { r with outbox := .empty }).reply j o).wake j := by
  simp only [sendOutput, hout, hear]

/-- A body hands out an output to its listener, and waits for its next input. -/
theorem suspend_eq {a : Parcel V} (hmain : i ≠ .main) (hentry : i ∈ (m.registry p).items)
    (hstatus : (m.routine i).status = .running) (hinbox : (m.routine i).inbox = .empty)
    (hout : (m.routine i).outbox = .awaited j) (hne : i ≠ j) (hi : i.val < m.routines.size) :
    m.suspend i p a =
      ((((m.setRegistry p ⟨(m.registry p).items.erase i⟩).update i (Routine.suspended i)).update j
        (Routine.told (.value a))).wake j).pause i := by
  set m₁ := m.setRegistry p ⟨(m.registry p).items.erase i⟩ with hm₁
  have hr : m₁.routine i = m.routine i := routine_setRegistry ..
  have hi₁ : i.val < m₁.routines.size := by simpa [hm₁] using hi
  have hself : ∀ f : Routine P V σ → Routine P V σ, (m₁.update i f).routine i = f (m.routine i) :=
    fun f => by rw [routine_update_self hi₁, hr]
  have hsend : (m₁.setStatus i .suspending).sendOutput i (.value a) =
      ((m₁.update i fun r => { r with status := .suspending, outbox := .empty }).update j
        (Routine.told (.value a))).wake j := by
    rw [sendOutput_awaited (j := j) (by rw [setStatus, hself]; exact hout)]
    · rw [setStatus, update_update]
      rfl
    · simp
  have hread : ((((m₁.update i fun r => { r with status := .suspending, outbox := .empty }).update j
      (Routine.told (.value a))).wake j).routine i).inbox = .empty := by
    rw [routine_wake, routine_update_of_ne hne.symm, hself]
    exact hinbox
  simp only [suspend, if_neg hmain, popWhere_eq hentry, yield, status, ← hm₁, hr, hstatus, hsend,
    read, hread]
  rw [setControl, update_update, update_wake, update_comm hne.symm, update_update]
  rfl

/-- Suspending a body concerns the body and its listener. -/
theorem routine_suspend {a : Parcel V} (hmain : i ≠ .main) (hentry : i ∈ (m.registry p).items)
    (hstatus : (m.routine i).status = .running) (hinbox : (m.routine i).inbox = .empty)
    (hout : (m.routine i).outbox = .awaited j) (hne : i ≠ j) (hi : i.val < m.routines.size)
    (hj : j.val < m.routines.size) (l : RoutineId) :
    (m.suspend i p a).routine l = if l = i then (m.routine i).suspended i
      else if l = j then (m.routine j).told (.value a) else m.routine l := by
  rw [suspend_eq hmain hentry hstatus hinbox hout hne hi, routine_pause, routine_wake,
    routine_update_ite (by rw [size_update, size_setRegistry]; exact hj),
    routine_update_ite (by rw [size_setRegistry]; exact hi),
    routine_update_ite (by rw [size_setRegistry]; exact hi)]
  simp only [routine_setRegistry]
  grind

/-- A handled body comes to rest, and who listens to it hears its output. If the output tells of the
end of the body, the body has ended. -/
theorem Linked.comeToRest {w : Option RoutineId} {o : Outcome V (Parcel V)} {rest : Routine P V σ}
    (h : m.Linked w) (hw : ∀ l, w = some l → l = i)
    (hactive : (m.routine i).control.isActive = true) (hsome : (m.routine i).scope.isSome)
    (ho : o.IsSignal) (hidle : rest.control = .reading i ∨ rest.control = .ended)
    (hphase : rest.Phase i) (hposture : rest.Posture) (hstack : rest.stack = (m.routine i).stack)
    (hscope : rest.scope = (m.routine i).scope)
    (hend : o.signal?.bind Signal.need? = none → rest.control = .ended ∧
      ∀ b, o = .value (.signal (.done b)) → b.mark? = (m.routine i).role)
    (hself : m'.routine i = rest)
    (htold : ∀ l, (m.routine l).control = .listening i → m'.routine l = (m.routine l).told o)
    (hothers : ∀ l, l ≠ i → (m.routine l).control ≠ .listening i → m'.routine l = m.routine l)
    (hsize : m'.routines.size = m.routines.size) (hctx : m'.contexts.size = m.contexts.size)
    (hready : ∀ l, l ≠ i → (m.routine l).control = .listening i ∨ l ∈ m.ready → l ∈ m'.ready) :
    m'.Linked none := by
  have hne : (m.routine i).control ≠ .listening i := ne_listening_of_isActive hactive i
  have hcases : ∀ l, l = i ∨ (m.routine l).control = .listening i ∨ m'.routine l = m.routine l := by
    grind
  have hscopes : ∀ l, (m'.routine l).scope = (m.routine l).scope := by
    grind [Routine.told]
  have hstacks : ∀ l, (m'.routine l).stack = (m.routine l).stack := by
    grind [Routine.told]
  have hrole : ∀ l, (m'.routine l).role = (m.routine l).role := fun l => by
    rw [Routine.role, hscopes l]
    rfl
  -- Only the body itself waits at its slots now.
  have hrests : rest.control.isUnderWay i = false := by
    rcases hidle with hc | hc <;> simp [hc, isUnderWay]
  obtain ⟨hsilent, hown⟩ := hphase.slots_of_rest hrests
  -- A listener stands where it takes the signals of the body.
  have hheard : ∀ l, (m.routine l).control = .listening i →
      ((m.routine l).told o).Posture ∧ awaitedScope? (m.routine l).stack = some i := by
    intro l hl
    obtain ⟨scope, hscope'⟩ := Option.isSome_iff_exists.1 hsome
    obtain ⟨-, st, hst, hentered⟩ := h.takesSignals hscope' hl
    constructor
    · change Fits (m.routine l).role o (m.routine l).stack
      rw [hst]
      exact ⟨_, rfl, ho, hentered⟩
    · rw [hst]
      rfl
  have hgoes : ∀ l, (m.routine l).control = .listening i → (m.routine l).scope.isSome →
      Routine.Phase l ((m.routine l).told o) := fun l hl hs =>
    (h.phase l hs).goOn (by rw [hl]; rfl) rfl rfl rfl rfl rfl
  have hended : ∀ l, (m.routine l).scope.isSome → (m.routine l).control = .ended →
      m'.routine l = m.routine l := by
    grind [ne_ended_of_isActive]
  constructor
  case working => simp
  case posture =>
    have hl := h.posture
    grind
  case phase =>
    have hl := h.phase
    grind
  case outbox =>
    have hl := h.outbox
    grind [Routine.told, ne_listening_of_isActive, Slot.isAwaited]
  case listening =>
    intro l c hl
    have hl' : m'.routine l = m.routine l := by grind [Routine.told]
    rw [hl'] at hl
    have hci : c ≠ i := by grind [Routine.told]
    exact (h.listening l c hl).congr (hscopes c) (by grind [Routine.told]) (hstacks l) (hrole l)
  case inbox =>
    have hl := h.inbox
    grind [Routine.told, isFresh, isFresh_of_isActive, ne_reading_of_isActive]
  case reading =>
    have hl := h.reading
    grind [Routine.told]
  case present =>
    have hl := h.present
    have hlt := lt_of_isActive hactive
    grind [Routine.told]
  case slots =>
    have hl := h.slots
    grind [Routine.told]
  case ending =>
    intro l _ o' t ho' hno ht
    rw [hstacks] at ht
    by_cases hl : (m.routine l).control = .listening i
    · -- The listener is told that the body has ended.
      obtain rfl : o = o' := by grind [Routine.told]
      obtain rfl : i = t := by grind
      obtain ⟨hrest, hmark⟩ := hend hno
      exact ⟨by rw [hscopes, hsome], by rw [hself, hrest], by rw [hrole]; exact hmark⟩
    · have hli : l ≠ i := by grind
      have hl' : (m.routine l).control = .returning o' := by grind
      exact (h.ending l (by grind) o' t hl' hno ht).stays hended
  case outer =>
    have hl := h.outer
    grind
  case opened => exact fun s scope hs => hctx ▸ h.opened s scope (by grind)
  case clauses =>
    have hl := h.clauses
    grind
  case ready =>
    have hl := h.ready
    intro l hl'
    have hli : l ≠ i := by grind [isActive]
    exact hready l hli (by grind)
  case main =>
    have hl := h.main
    grind

/-- A handled body is suspended with a signal. -/
theorem Linked.suspend (h : m.Linked (some i)) (hsome : (m.routine i).scope.isSome)
    (hcontrol : (m.routine j).control = .listening i) {f : Frame P V σ} {st : List (Frame P V σ)}
    (hst : (m.routine i).stack = f :: st) (hf : f.need? = some q)
    (hsettled : Settled (m.routine i).role st) (hx : x.need? = some q)
    (hsignal : (Outcome.value (.signal x) : Outcome V (Parcel V)).IsSignal)
    (hr : ∀ l, m'.routine l = if l = i then (m.routine i).suspended i
      else if l = j then (m.routine j).told (.value (.signal x)) else m.routine l)
    (hsize : m'.routines.size = m.routines.size) (hctx : m'.contexts.size = m.contexts.size)
    (hready : m'.ready = (m.ready ++ [j]).erase i) : m'.Linked none := by
  have hactive := h.working i rfl
  have hne := ne_listening_of_isActive hactive i
  have hunique : ∀ l, (m.routine l).control = .listening i → l = j := fun l hl =>
    h.eq_of_listening hsome hl hcontrol
  have hphase : Routine.Phase i ((m.routine i).suspended i) := by
    have halone := (h.phase i hsome).alone
    constructor <;> simp [Routine.suspended, halone]
    exact ⟨f, st, hst, by simp [hf], hsettled⟩
  refine h.comeToRest (fun l hl => (Option.some.inj hl).symm) hactive hsome hsignal (.inl rfl)
    hphase trivial rfl rfl (fun hnone => ?_) (by grind) (by grind) (by grind) hsize hctx
    fun l hli hl => ?_
  · simp [Outcome.signal?, hx] at hnone
  · rw [hready]
    exact (List.mem_erase_of_ne hli).2 (by grind)

/-- Using up an entry leaves one less of it. -/
theorem count_setRegistry_items_erase (hp : m.hasPlace p) (hentry : i ∈ (m.registry p).items)
    (p' : Place) (t : RoutineId) :
    ((m.setRegistry p ⟨(m.registry p).items.erase i⟩).registry p').items.count t +
      (if p = p' ∧ i = t then 1 else 0) = (m.registry p').items.count t := by
  rw [registry_setRegistry hp]
  by_cases hpq : p = p'
  · subst hpq
    have hpos := List.count_pos_iff.2 hentry
    by_cases hit : i = t
    · subst hit
      simp
      omega
    · simp [hit, List.count_erase_of_ne (Ne.symm hit)]
  · simp [hpq]

namespace Counted

/-- A handled body waits for its next input. What it had in hand goes with the signal. -/
theorem suspendBody (h : m.Counted (some i) hand []) (hi : i.val < m.routines.size)
    {f : Frame P V σ} {st : List (Frame P V σ)} (hst : (m.routine i).stack = f :: st)
    (hf : f.need? = some q) (hwi : ∀ y, y.scope = i → ¬ m.Waits y) :
    (m.update i (Routine.suspended i)).Counted none hand [] := by
  have hr : ∀ l, l ≠ i → (m.update i (Routine.suspended i)).routine l = m.routine l := fun l hl =>
    routine_update_of_ne (Ne.symm hl) _
  have hself : (m.update i (Routine.suspended i)).routine i = (m.routine i).suspended i :=
    routine_update_self hi _
  have hwork : (m.update i (Routine.suspended i)).Counted (some i) hand [] :=
    h.updateWorker hi hwi rfl (fun _ => rfl) (fun _ => le_rfl)
      (h.owners_le hi hr (by simp) fun k => by rw [hself]; rfl)
  refine hwork.finishWork (by simpa using hi) (fun _ => rfl) rfl rfl ?_ ?_ ?_
  · intro t
    rw [hself]
    simp [Routine.suspended, Control.keys]
  · intro y
    rw [hself]
    simp [Routine.suspended, Control.keys, Routine.pending?, Control.need?]
  · intro d t
    have hneed : ((m.routine i).suspended i).stack.head?.bind Frame.need? = some q := by
      simp [Routine.suspended, hst, hf]
    rw [hself, Routine.entries_eq_zero_of_need? hneed, Nat.add_zero]

/-- Nobody can resume a body that has just been suspended: before, it did not wait. -/
theorem tokens_suspended (h : m.Counted (some i) hand []) (hi : i.val < m.routines.size)
    (hwi : ∀ y, y.scope = i → ¬ m.Waits y) {y : Key} (hy : y.scope = i) :
    (m.update i (Routine.suspended i)).tokens none y + hand.count y = 0 := by
  have hr : ∀ l, l ≠ i → (m.update i (Routine.suspended i)).routine l = m.routine l := fun l hl =>
    routine_update_of_ne (Ne.symm hl) _
  have hself : (m.update i (Routine.suspended i)).routine i = (m.routine i).suspended i :=
    routine_update_self hi _
  have hold : ¬ 0 < m.tokens (some i) y + hand.count y := fun hpos => hwi y hy (h.waits y hpos)
  have hadd := tokens_add (w := some i) hr (by simp) hi rfl y
  have hknown := tokens_known (m := m.update i (Routine.suspended i)) (by simpa using hi) y
  have hinto : ((m.routine i).suspended i).into? = (m.routine i).into? := rfl
  simp only [known_self, hself, Routine.tokens_atWork, hinto] at hadd
  simp only [hself, Routine.pending?, Routine.suspended, Control.need?, Control.keys,
    Option.bind_none, Option.toList_none, List.count_nil] at hknown
  omega

/-- A listener that hears a signal gets the ways to resume that come with it, and the one of the body
itself. -/
theorem tokens_told (hcontrol : (m.routine j).control = .listening i) {p : ContextId}
    {st : List (Frame P V σ)} (hst : (m.routine j).stack = .registered (.context p) i :: st)
    (hx : x.need? = some q) (y : Key) :
    (m.update j (Routine.told (.value (.signal x)))).tokens none y =
      m.tokens none y + x.keys.count y + if (⟨q, i⟩ : Key) = y then 1 else 0 := by
  have hj : j.val < m.routines.size := lt_of_ne_ended (by simp [hcontrol])
  have hadd := tokens_add (w := none) (fun l hl => routine_update_of_ne (m := m) (Ne.symm hl)
    (Routine.told (.value (.signal x)))) (by simp) hj rfl y
  have hkeys : ((m.routine j).told (.value (.signal x))).keys = x.keys ++ (m.routine j).keys := by
    simp [Routine.keys, Routine.told, Control.keys, hcontrol, Outcome.signal?, Routine.into?]
  have hpending : ((m.routine j).told (.value (.signal x))).pending? = some ⟨q, i⟩ := by
    simp [Routine.pending?, Routine.told, Control.need?, Outcome.signal?, hx, hst, awaitedScope?]
  have hold : (m.routine j).pending? = none := by
    simp [Routine.pending?, hcontrol, Control.need?]
  simp only [known_of_ne (w := none) (j := j) (by simp), routine_update_self hj, Routine.tokens, hkeys,
    hpending, hold, Option.toList_some, Option.toList_none, List.count_append, List.count_cons,
    List.count_nil, beq_iff_eq] at hadd
  omega

/-- The listener of a body that waits hears its signal, and the entry of the body is used up. -/
theorem tellSignal (h : m.Counted none x.keys []) {ctx : Context} (hwaits : m.Waits ⟨q, i⟩)
    (hopened : ctx.id.val < m.contexts.size) (hentry : i ∈ (m.registry ctx.place).items)
    (hcontrol : (m.routine j).control = .listening i) {st : List (Frame P V σ)}
    (hst : (m.routine j).stack = .registered ctx.place i :: st) (hx : x.need? = some q)
    (hnone : ∀ y : Key, y.scope = i → m.tokens none y + x.keys.count y = 0) :
    ((m.setRegistry ctx.place ⟨(m.registry ctx.place).items.erase i⟩).update j
      (Routine.told (.value (.signal x)))).Counted none [] [] := by
  have hj : j.val < m.routines.size := lt_of_ne_ended (by simp [hcontrol])
  set m' := m.update j (Routine.told (.value (.signal x))) with hm'
  have hr : ∀ l, l ≠ j → m'.routine l = m.routine l := fun l hl => routine_update_of_ne (Ne.symm hl) _
  have hself : m'.routine j = (m.routine j).told (.value (.signal x)) := routine_update_self hj _
  have hsize : m'.routines.size = m.routines.size := by simp [hm']
  have hknown : ∀ l (n : Machine P V σ), n.known none l = n.routine l := fun l n =>
    known_of_ne (by simp)
  have htokens : ∀ y, m'.tokens none y = m.tokens none y + x.keys.count y +
      if (⟨q, i⟩ : Key) = y then 1 else 0 := tokens_told hcontrol hst hx
  have hscopes : ∀ t, (m'.routine t).scope = (m.routine t).scope := by
    intro t
    by_cases ht : t = j
    · rw [ht, hself]
      rfl
    · rw [hr t ht]
  constructor
  case held =>
    intro t
    have hadd := load_add (w := none) hr hsize hj rfl t
    have hkeys : ((m.routine j).told (.value (.signal x))).keys = x.keys ++ (m.routine j).keys := by
      simp [Routine.keys, Routine.told, Control.keys, hcontrol, Outcome.signal?, Routine.into?]
    have hstack : ((m.routine j).told (.value (.signal x))).stack = (m.routine j).stack := rfl
    simp only [hknown, hself, Routine.holds, hkeys, hstack, countKeys_append] at hadd
    have hheld := h.held t
    rw [← holders_congr (hscopes t)] at hheld
    refine Eq.trans ?_ hheld
    change m'.load none t + 0 + 0 = _
    rw [List.count_nil]
    omega
  case single =>
    intro t
    change m'.tokens none _ + m'.tokens none _ + 0 ≤ 1
    rw [htokens, htokens]
    by_cases ht : t = i
    · have hd := hnone ⟨.datum, t⟩ ht
      have hq := hnone ⟨.result, t⟩ ht
      subst ht
      cases q <;> simp <;> omega
    · have hsingle := h.single t
      rw [countKeys_eq] at hsingle
      have hit : ∀ q', (⟨q, i⟩ : Key) ≠ ⟨q', t⟩ := by
        intro q' heq
        exact ht (Key.mk.inj heq).2.symm
      rw [if_neg (hit _), if_neg (hit _)]
      omega
  case waits =>
    intro y hy
    have hy' : 0 < m'.tokens none y := hy
    rw [htokens] at hy'
    have hw : m.Waits y := by
      by_cases hqy : (⟨q, i⟩ : Key) = y
      · exact hqy ▸ hwaits
      · rw [if_neg hqy] at hy'
        exact h.waits y (by omega)
    change m'.Waits y
    unfold Waits at hw ⊢
    by_cases hyj : y.scope = j
    · rw [hyj] at hw ⊢
      rw [hself]
      exact hw
    · rwa [hr _ hyj]
  case entries =>
    intro c t
    have hadd := entries_add (w := none) hr hsize hj c t
    have hcount := count_setRegistry_items_erase (p := ctx.place) hopened hentry (.context c) t
    have hold := h.entries c t
    have hnew : ((m.routine j).told (.value (.signal x))).entries c t = 0 := by
      simp [Routine.entries, Routine.told, hst, Context.place, hasEntry, Outcome.signal?, hx]
    have hlisten : (m.routine j).entries c t = if ctx.place = .context c ∧ i = t then 1 else 0 := by
      simp [Routine.entries, hst, Context.place, hasEntry, hcontrol]
    rw [hknown, hknown, hself, hnew, hlisten] at hadd
    change ((m.setRegistry ctx.place ⟨(m.registry ctx.place).items.erase i⟩).registry
      (.context c)).items.count t = m'.entries none c t
    omega
  case owners =>
    have howners := h.owners_le hj hr hsize fun k => by
      rw [hself]
      exact le_rfl
    exact howners

/-- A handled body is suspended with a signal, which carries what is in hand. -/
theorem suspend (h : m.Counted (some i) x.keys []) (hi : i.val < m.routines.size)
    (hscope : (m.routine i).scope = some scope) (hopened : scope.ctx.id.val < m.contexts.size)
    (hentry : i ∈ (m.registry scope.ctx.place).items)
    (hcontrol : (m.routine j).control = .listening i) {st' : List (Frame P V σ)}
    (hst' : (m.routine j).stack = .registered scope.ctx.place i :: .dispatch i :: st')
    {f : Frame P V σ} {st : List (Frame P V σ)} (hst : (m.routine i).stack = f :: st)
    (hf : f.need? = some q) (hx : x.need? = some q) (hwi : ∀ y, y.scope = i → ¬ m.Waits y)
    (hne : i ≠ j) :
    (((((m.setRegistry scope.ctx.place ⟨(m.registry scope.ctx.place).items.erase i⟩).update i
      (Routine.suspended i)).update j (Routine.told (.value (.signal x)))).wake j).pause i).Counted
        none [] [] := by
  set m₁ := m.update i (Routine.suspended i) with hm₁
  have hself : m₁.routine i = (m.routine i).suspended i := routine_update_self hi _
  have hj : m₁.routine j = m.routine j := routine_update_of_ne hne _
  have hwaits : m₁.Waits ⟨q, i⟩ := by
    simp only [Waits, hself]
    exact ⟨by simp [Routine.suspended, hscope], rfl, by simp [Routine.suspended, hst, hf]⟩
  have htold := (h.suspendBody hi hst hf hwi).tellSignal hwaits hopened hentry (by rw [hj, hcontrol])
    (by rw [hj, hst']) hx fun y hy => h.tokens_suspended hi hwi hy
  rw [setRegistry_eq_update_comm, registry_update] at htold
  exact htold.setReady _

end Counted

/-- Dropping a message uses up the ways to resume that come with it. -/
theorem AtWork.releaseParcel (h : m.AtWork i (x.keys ++ hand) loose due) :
    (m.releaseParcel (.signal x)).AtWork i hand loose due ∧
      m.Fades (m.releaseParcel (.signal x)) := by
  cases x with
  | forward e b k => exact AtWork.release h
  | perform e b => exact ⟨h, .refl m⟩
  | done b => exact ⟨h, .refl m⟩

/-- Without an entry nobody can be given the signal. -/
theorem suspend_of_notMem {a : Parcel V} (hentry : i ∉ (m.registry p).items) :
    m.suspend i p a = (m.releaseParcel a).fail i .noResumePoint := by
  have hpop : (m.registry p).popWhere (· == i) = (none, m.registry p) :=
    Registry.popWhere_of_forall fun y hy => by
      simp only [beq_eq_false_iff_ne]
      rintro rfl
      exact hentry hy
  unfold suspend
  split
  · rfl
  · rw [hpop]

/-- A routine at work whose entry stands in the registry of a context runs a handled body. -/
theorem AtWork.listened (h : m.AtWork i hand loose due) {ctx : Context}
    (hentry : i ∈ (m.registry ctx.place).items) :
    ∃ scope j, (m.routine i).scope = some scope ∧ ctx.place = scope.ctx.place ∧
      (m.routine i).status = .running ∧ (m.routine i).inbox = .empty ∧
      (m.routine i).outbox = .awaited j ∧ (m.routine j).control = .listening i ∧ i ≠ j ∧
      i ≠ .main := by
  have hpos : 0 < m.entries (some i) ctx.id i := by
    rw [← h.counted.entries]
    exact List.count_pos_iff.2 hentry
  obtain ⟨scope, j, hscope, hid, hstatus, hinbox, hout, hcontrol, hne⟩ :=
    h.linked.listener_of_entry hpos
  refine ⟨scope, j, hscope, by rw [Context.place, Context.place, hid], hstatus, hinbox, hout,
    hcontrol, hne, ?_⟩
  rintro rfl
  rw [h.linked.main.1] at hscope
  cases hscope

/-- A step ends with the suspending of the body, or with a failure if nobody listens. -/
theorem AtWork.suspend (h : m.AtWork i x.keys [] []) (ctx : Context) {f : Frame P V σ}
    {st : List (Frame P V σ)} (hst : (m.routine i).stack = f :: st) (hf : f.need? = some q)
    (hsettled : Settled (m.routine i).role st) (hx : x.need? = some q)
    (hsignal : (Outcome.value (.signal x) : Outcome V (Parcel V)).IsSignal) :
    (m.suspend i ctx.place (.signal x)).Sound := by
  by_cases hentry : i ∈ (m.registry ctx.place).items
  · obtain ⟨scope, j, hscope, hplace, hstatus, hinbox, hout, hcontrol, hne, hmain⟩ :=
      h.listened hentry
    rw [hplace] at hentry ⊢
    have hj : j.val < m.routines.size := lt_of_ne_ended (by simp [hcontrol])
    obtain ⟨-, st', hst', -⟩ := h.linked.takesSignals hscope hcontrol
    have hr : ∀ l, (m.suspend i scope.ctx.place (.signal x)).routine l =
        if l = i then (m.routine i).suspended i
        else if l = j then (m.routine j).told (.value (.signal x)) else m.routine l :=
      routine_suspend hmain hentry hstatus hinbox hout hne h.lt hj
    rw [suspend_eq hmain hentry hstatus hinbox hout hne h.lt] at hr ⊢
    refine ⟨h.linked.suspend (by simp [hscope]) hcontrol hst hf hsettled hx hsignal hr ?_ ?_ rfl,
      h.counted.suspend h.lt hscope (h.linked.opened i scope hscope) hentry hcontrol hst' hst hf hx
        (fun y hy => h.linked.not_waits (hy ▸ h.active)) hne, ?_⟩
    · simp [pause, wake]
    · simp [pause, wake]
    · intro t c ht hz hdue
      have hold := h.reclaimed t
      have hself := h.reclaimed i scope hscope
      rw [hr] at ht ⊢
      grind [Routine.suspended, Routine.told, Status.isTerminal]
  · rw [suspend_of_notMem hentry]
    obtain ⟨hwork, hf'⟩ : (m.releaseParcel (.signal x)).AtWork i [] [] [] ∧
        m.Fades (m.releaseParcel (.signal x)) := AtWork.releaseParcel (by simpa using h)
    have hstack : ((m.releaseParcel (.signal x)).routine i).stack = f :: st := by
      rw [(hf'.routine i).stack, hst]
    have hrole := (hf'.routine i).role
    refine hwork.reply ?_ rfl ?_ ?_
    · rw [hstack, hrole]
      cases f <;> simp [Frame.need?] at hf
      · exact ⟨trivial, hsettled⟩
      · exact ⟨trivial, hsettled⟩
    · rw [hstack]
      cases f <;> simp [Frame.need?] at hf <;> rfl
    · intro p s st' heq
      rw [hstack] at heq
      obtain rfl : f = _ := (List.cons.inj heq).1
      simp [Frame.need?] at hf

end Machine

end OneShot
