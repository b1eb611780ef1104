import OneShot.Proofs.Hearing
import OneShot.Proofs.Unwinding
import OneShot.Proofs.Walk

/-!
# Failures and panics that cross coroutines

In a chain of coroutines each body resumes the next one. An error or panic with which the innermost
body ends goes up through the chain: each body on the way passes it on, and ends with it. The first code
that does something else with it has it as it was, and the coroutines inside have ended with it.

`OnWay` says where the outcome is meanwhile. The coroutines outside of the catching code do not hear of
it: they go on listening, each to the one before it. `ReachesUnder.crosses` is about every run in which
bodies hand out through themselves.
-/

namespace OneShot

variable {P V σ : Type}

/-- Code that ends with an outcome, whatever it asks the machine and stores before. -/
inductive Code.EndsWith (o : Outcome V V) : Code P V σ V → Prop where
  | now : EndsWith o (.ofOutcome o)
  | ask {q : Query P} {next : q.Reply → Code P V σ V} (h : ∀ r, EndsWith o (next r)) :
    EndsWith o (.ask q next)
  | access {change : σ → σ} {next : σ → Code P V σ V} (h : ∀ s, EndsWith o (next s)) :
    EndsWith o (.access change next)

/-- The first code is what is left of the second after a question or a change of the store. -/
inductive Code.Rest : Code P V σ V → Code P V σ V → Prop where
  | ask (q : Query P) (next : q.Reply → Code P V σ V) (r : q.Reply) : Rest (next r) (.ask q next)
  | access (change : σ → σ) (next : σ → Code P V σ V) (s : σ) : Rest (next s) (.access change next)

/-- Code asks and stores only finitely often before it ends or calls an operation. -/
theorem Code.wf_rest : WellFounded (Code.Rest (P := P) (V := V) (σ := σ)) := by
  refine ⟨fun c => ?_⟩
  induction c with
  | ask q next ih => exact ⟨_, fun d hd => by cases hd; exact ih _⟩
  | access change next ih => exact ⟨_, fun d hd => by cases hd; exact ih _⟩
  | _ => exact ⟨_, fun d hd => nomatch hd⟩

/-- A frame that gives an outcome to the frame below it as it is. Code does so if it ends with the
outcome. -/
inductive Frame.Conveys (o : Outcome V (Parcel V)) : Frame P V σ → Prop where
  | frame {f : Frame P V σ} (h : f.handsOn? o = some o) : Conveys o f
  | code {k : Outcome V V → Code P V σ V} (h : (k (Machine.seen o)).EndsWith (Machine.seen o)) :
    Conveys o (.next k)

namespace Machine

open Control

variable {code : P → Entry V → Code P V σ V} {m m₀ m' : Machine P V σ} {c i j x : RoutineId}
  {o : Outcome V (Parcel V)} {f : Frame P V σ} {fs st : List (Frame P V σ)}
  {k : Outcome V V → Code P V σ V} {cs gone js : List RoutineId} {w : Nat × Code P V σ V}

/-! ## The routine that has the outcome -/

theorem stack_letGoWithin (n : Nat) (m : Machine P V σ) (s : RoutineId) :
    ((m.letGoWithin n s).routine j).stack = (m.routine j).stack := by
  induction n generalizing m s with
  | zero => rfl
  | succ n ih =>
    have hless : ∀ c : Scope P, ((m.update s fun r => { r with scope := some c }).routine j).stack =
        (m.routine j).stack := by
      intro c
      rw [routine_update]
      split <;> rfl
    unfold letGoWithin
    split
    · rfl
    · dsimp only
      split
      · split
        · exact (stack_close _ s j).trans ((ih _ _).trans (hless _))
        · exact (stack_close _ s j).trans (hless _)
      · exact hless _

theorem stack_releaseAt (m : Machine P V σ) (k : ContId) :
    ((m.releaseAt k).routine j).stack = (m.routine j).stack := by
  have hrelease : ∀ (d : Cont) (m : Machine P V σ),
      ((m.release d).routine j).stack = (m.routine j).stack := by
    intro d
    induction d with
    | direct s => exact fun m => stack_letGoWithin _ m s
    | through s inner ih => exact fun m => (ih _).trans (stack_letGoWithin _ m s)
  unfold releaseAt
  split
  · next d m₁ heq =>
    obtain rfl : (m.takeCont k).2 = m₁ := congrArg Prod.snd heq
    exact hrelease d _
  · next m₁ heq =>
    obtain rfl : (m.takeCont k).2 = m₁ := congrArg Prod.snd heq
    rfl

/-- Questions leave the stacks of routines alone that there are. -/
theorem stack_answer (hj : j.val < m.routines.size) (i : RoutineId) (q : Query P) :
    ((m.answer i q).2.routine j).stack = (m.routine j).stack := by
  cases q with
  | spawn config body =>
    have hr := routine_spawn m config (.body body) none j
    rw [if_neg (Nat.ne_of_lt hj)] at hr
    exact congrArg Routine.stack hr
  | skip => exact congrArg Routine.stack (routine_grow_of_lt hj)
  | abandon c =>
    unfold answer
    dsimp only
    split
    · exact stack_close m c j
    · rfl
  | register r op => exact congrArg Routine.stack (routine_setRegistry m (.registry r) _ j)
  | keep k =>
    unfold answer
    dsimp only
    split
    · next d m₁ heq =>
      obtain rfl : (m.takeCont k).2 = m₁ := congrArg Prod.snd heq
      rfl
    · next m₁ heq =>
      obtain rfl : (m.takeCont k).2 = m₁ := congrArg Prod.snd heq
      rfl
  | discard k => exact stack_releaseAt m k
  | _ => rfl

/-- Routine `x` has the outcome, and gives it to its topmost frame next, or when its code has ended. The
measure sinks with each step. -/
inductive Bears (m : Machine P V σ) (o : Outcome V (Parcel V)) (x : RoutineId) :
    Nat × Code P V σ V → Prop where
  | returning {n : Nat} {d : Code P V σ V} (hc : (m.routine x).control = .returning o)
    (hn : (m.routine x).stack.length = n) : Bears m o x (2 * n, d)
  | running {n : Nat} {d : Code P V σ V} (hc : (m.routine x).control = .running d)
    (hd : d.EndsWith (seen o)) (hn : (m.routine x).stack.length = n) : Bears m o x (2 * n + 1, d)

/-- The order in which the measure sinks. -/
abbrev Sinks : Nat × Code P V σ V → Nat × Code P V σ V → Prop := Prod.Lex (· < ·) Code.Rest

namespace Bears

theorem isActive (h : m.Bears o x w) : (m.routine x).control.isActive = true := by
  cases h with
  | returning hc _ => rw [hc]; rfl
  | running hc _ _ => rw [hc]; rfl

theorem congr (hcontrol : (m'.routine x).control = (m.routine x).control)
    (hstack : (m'.routine x).stack = (m.routine x).stack) (h : m.Bears o x w) : m'.Bears o x w := by
  cases h with
  | returning hc hn => exact .returning (hcontrol.trans hc) (by rw [hstack, hn])
  | running hc hd hn => exact .running (hcontrol.trans hc) hd (by rw [hstack, hn])

/-- Code that ends with an abrupt outcome comes nearer to its end. -/
theorem stepOf_running (h : m.Sound) (ho : o.isAbrupt = true) {d : Code P V σ V}
    (hc : (m.routine x).control = .running d) (hd : d.EndsWith (seen o)) :
    ((m.stepOf code x).routine x).stack = (m.routine x).stack ∧
      ∃ w, Sinks w (2 * (m.routine x).stack.length + 1, d) ∧ (m.stepOf code x).Bears o x w := by
  have hactive : (m.routine x).control.isActive = true := by rw [hc]; rfl
  have hlt := lt_of_isActive hactive
  have hgo : ∀ m₁ : Machine P V σ, x.val < m₁.routines.size →
      (m₁.routine x).stack = (m.routine x).stack → ∀ e : Control P V σ,
        ((m₁.setControl x e).routine x).control = e ∧
          ((m₁.setControl x e).routine x).stack = (m.routine x).stack := by
    intro m₁ hlt₁ hstack e
    have hr : (m₁.setControl x e).routine x = { m₁.routine x with control := e } :=
      routine_update_self hlt₁ _
    exact ⟨by rw [hr], by rw [hr]; exact hstack⟩
  have hf : m.Follows x (m.stepOf code x) := h.stepOf hactive
  have hsize := hf.influences.size
  rw [Machine.stepOf_running hc] at hsize ⊢
  cases hd with
  | now =>
    have hexec : m.exec code x (.ofOutcome (seen o)) = m.setControl x (.returning o) := by
      cases o with
      | value a => cases ho
      | failure g => rfl
      | panic p => rfl
    obtain ⟨hcontrol, hstack⟩ := hgo m hlt rfl (.returning o)
    rw [hexec]
    refine ⟨hstack, (_, .ofOutcome (seen o)), .left _ _ (Nat.lt_succ_self _), ?_⟩
    exact .returning hcontrol (by rw [hstack])
  | @ask q next hnext =>
    have hlt₁ : x.val < (m.answer x q).2.routines.size := by
      refine Nat.lt_of_lt_of_le hlt (hsize.trans ?_)
      exact (size_update ..).le
    obtain ⟨hcontrol, hstack⟩ := hgo (m.answer x q).2 hlt₁ (stack_answer hlt x q)
      (.running (next (m.answer x q).1))
    exact ⟨hstack, _, .right _ (.ask q next _), .running hcontrol (hnext _) (congrArg _ hstack)⟩
  | @access change next hnext =>
    obtain ⟨hcontrol, hstack⟩ := hgo { m with store := change m.store } hlt rfl
      (.running (next m.store))
    exact ⟨hstack, _, .right _ (.access change next _), .running hcontrol (hnext _) (congrArg _ hstack)⟩

/-- A frame that conveys the outcome gives it to the frame below, at once or through its code. -/
theorem stepOf_returning (h : m.Sound) (hc : (m.routine x).control = .returning o)
    (hst : (m.routine x).stack = f :: st) (hf : f.Conveys o) (d : Code P V σ V) :
    ((m.stepOf code x).routine x).stack = st ∧
      ∃ w, Sinks w (2 * (m.routine x).stack.length, d) ∧ (m.stepOf code x).Bears o x w := by
  have hlt := lt_of_isActive (show (m.routine x).control.isActive = true by rw [hc]; rfl)
  have hlength : (m.routine x).stack.length = st.length + 1 := by rw [hst]; rfl
  rw [hlength]
  cases hf with
  | frame hf =>
    have hands : m.HandsOn (m.stepOf code x) x f o st := h.handsOn hc hst hf
    refine ⟨hands.stack, (2 * st.length, d), .left _ _ (by omega), ?_⟩
    exact .returning hands.control (by rw [hands.stack])
  | @code k hk =>
    have hr : (m.stepOf code x).routine x =
        { m.routine x with stack := st, control := .running (k (seen o)) } := by
      rw [stepOf_next hc hst, setControl, update_update, routine_update_self hlt]
    have hcontrol : ((m.stepOf code x).routine x).control = .running (k (seen o)) := by rw [hr]
    have hstack : ((m.stepOf code x).routine x).stack = st := by rw [hr]
    refine ⟨hstack, (2 * st.length + 1, k (seen o)), .left _ _ (by omega), ?_⟩
    exact .running hcontrol hk (by rw [hstack])

end Bears

/-! ## The way through the chain -/

/-- Coroutine `c` has ended, and its status says that it ended with outcome `o`. -/
structure EndedWith (m : Machine P V σ) (o : Outcome V (Parcel V)) (c : RoutineId) : Prop where
  lt : c.val < m.routines.size
  control : (m.routine c).control = .ended
  status : m.status c = o.finalStatus

/-- The outcome is on its way to the code `k` of routine `i`, which waits below the frames `fs`. The
coroutines `cs`, the innermost first, are still to end with it, and each of them is resumed by the next
one and the last one by `i`. The routines `js` outside of `i` are resumed by each other in the same way. -/
structure OnWay (m₀ m : Machine P V σ) (o : Outcome V (Parcel V)) (gone cs : List RoutineId)
    (i : RoutineId) (js : List RoutineId) (fs : List (Frame P V σ))
    (k : Outcome V V → Code P V σ V) (st : List (Frame P V σ)) (w : Nat × Code P V σ V) : Prop where
  chain : m.Chained (cs ++ i :: js)
  conveys : ∀ c ∈ cs, ∀ f ∈ (m.routine c).stack, f.Conveys o
  above : ∀ f ∈ fs, f.Conveys o
  stack : (m.routine i).stack = fs ++ .next k :: st
  bears : m.Bears o (cs.headD i) w
  /-- The others have ended with it. -/
  crossed : ∀ c ∈ gone, m.EndedWith o c
  outer : ∀ j ∈ js, m₀.Unmoved m j
  status : m.status i = m₀.status i

/-- The outcome has come to the code `k` of routine `i`, and all coroutines inside have ended with it. The
routines outside are where they were. -/
structure Caught (m₀ m : Machine P V σ) (o : Outcome V (Parcel V)) (cs : List RoutineId)
    (i : RoutineId) (js : List RoutineId) (k : Outcome V V → Code P V σ V)
    (st : List (Frame P V σ)) : Prop where
  control : (m.routine i).control = .running (k (seen o))
  stack : (m.routine i).stack = st
  crossed : ∀ c ∈ cs, m.EndedWith o c
  chain : m.Chained (i :: js)
  outer : ∀ j ∈ js, m₀.Unmoved m j
  status : m.status i = m₀.status i

/-- A frame that waits for the end of a canceled coroutine does not convey what the coroutine ends
with. -/
theorem not_conveys_canceling (a : V) : ¬ (Frame.canceling a : Frame P V σ).Conveys o := by
  intro h
  cases h with
  | frame hf => cases hf

/-- A step of a routine that goes on changes no status of its own. -/
theorem Orderly.status_of_isActive (h : m.Orderly) (hown : m.yieldsOwn = true)
    (hs : m.step code = some m') (hbefore : (m.routine x).control.isActive = true)
    (hafter : (m'.routine x).control.isActive = true) : m'.status x = m.status x := by
  rcases (h.step_status hown hs (lt_of_isActive hbefore)).1 with hsame | ⟨i, -, hchange⟩
  · exact hsame
  · have hended := ne_ended_of_isActive hafter
    have hreading := ne_reading_of_isActive hafter x
    have hfresh := isFresh_of_isActive hbefore
    have hread := ne_reading_of_isActive hbefore x
    generalize m'.status x = b at hchange ⊢
    generalize m.status x = a at hchange ⊢
    cases hchange <;> simp_all [isFresh]

namespace EndedWith

/-- An end is there to stay. -/
theorem of_reaches (hc : m.EndedWith o c) (h : m.Sound) (ho : m.Orderly)
    (hr : ReachesOwn code m m') : m'.EndedWith o c := by
  have hlast := hr.lasts ho h hc.lt
  have hsize : m.routines.size ≤ m'.routines.size :=
    hr.reaches.size_le h
  refine ⟨hc.lt.trans_le hsize, hlast.ended hc.control, (hlast.final ?_).trans hc.status⟩
  rw [hc.status]
  cases o <;> simp [Outcome.finalStatus]

theorem step (hc : m.EndedWith o c) (h : m.Sound) (ho : m.Orderly) (hown : m.yieldsOwn = true)
    (hs : m.step code = some m') : m'.EndedWith o c :=
  hc.of_reaches h ho (.step hown hs (.refl m'))

end EndedWith

namespace OnWay

theorem congr (hr : ∀ l, m'.routine l = m.routine l)
    (hsize : m'.routines.size = m.routines.size) (h : m₀.OnWay m o gone cs i js fs k st w) :
    m₀.OnWay m' o gone cs i js fs k st w where
  chain := h.chain.imp fun a b hb => (congrArg Routine.control (hr b)).trans hb
  conveys c hc := by rw [hr]; exact h.conveys c hc
  above := h.above
  stack := by rw [hr]; exact h.stack
  bears := h.bears.congr (by rw [hr]) (by rw [hr])
  crossed c hc := by
    obtain ⟨hlt, hcontrol, hstatus⟩ := h.crossed c hc
    exact ⟨by rwa [hsize], by rwa [hr], by rwa [Machine.status, hr]⟩
  outer j hj := (h.outer j hj).trans (.of_routine (hr j))
  status := by rw [Machine.status, hr]; exact h.status

/-- The steps of other routines do not concern it. -/
theorem stay (hu : m₀.OnWay m o gone cs i js fs k st w) (h : m.Sound) (ho : m.Orderly)
    (hown : m.yieldsOwn = true) (hs : m.step code = some m')
    (hhead : m.ready.head? ≠ some (cs.headD i)) : m₀.OnWay m' o gone cs i js fs k st w := by
  have hline : cs ++ i :: js = cs.headD i :: (cs ++ i :: js).tail := by cases cs <;> rfl
  have hactive := hu.bears.isActive
  obtain ⟨hcontrol, hstack⟩ : (m'.routine (cs.headD i)).control = (m.routine (cs.headD i)).control ∧
      (m'.routine (cs.headD i)).stack = (m.routine (cs.headD i)).stack := by
    obtain ⟨x, ready, hready, ⟨hx, -, hf⟩ | ⟨-, rfl⟩⟩ := h.step_cases hs
    · exact hf.routine_of_isActive h (fun heq => hhead (by rw [hready, heq]; rfl)) hactive
    · exact ⟨rfl, rfl⟩
  have hfirst : m.Unmoved m' (cs.headD i) :=
    ⟨hcontrol, hstack, ho.status_of_isActive hown hs hactive (hcontrol ▸ hactive)⟩
  obtain ⟨hchain, hrest⟩ := ho.chain_step hown hs (hline ▸ hu.chain) fun heq => absurd heq hhead
  have hall : ∀ j ∈ cs ++ i :: js, m.Unmoved m' j := by
    rw [hline]
    exact List.forall_mem_cons.2 ⟨hfirst, hrest⟩
  have hi := hall i (by simp)
  exact {
    chain := hline ▸ hchain
    conveys := fun c hc => by
      rw [(hall c (List.mem_append_left _ hc)).stack]
      exact hu.conveys c hc
    above := hu.above
    stack := hi.stack.trans hu.stack
    bears := hu.bears.congr hcontrol hstack
    crossed := fun c hc => (hu.crossed c hc).step h ho hown hs
    outer := fun j hj => (hu.outer j hj).trans (hall j (by simp [hj]))
    status := hi.status.trans hu.status }

/-- The code that the outcome was on the way to takes it. -/
theorem caught (hu : m₀.OnWay m o gone [] i js [] k st w) (h : m.Sound) (ho : m.Orderly)
    (hown : m.yieldsOwn = true) (hs : m.step code = some m') (hhead : m.ready.head? = some i)
    (hc : (m.routine i).control = .returning o) : m₀.Caught m' o gone i js k st := by
  obtain rfl : m.stepOf code i = m' := stepOf_eq_of_step hhead hs
  have hactive : (m.routine i).control.isActive = true := by rw [hc]; rfl
  have hr : (m.stepOf code i).routine i =
      { m.routine i with stack := st, control := .running (k (seen o)) } := by
    rw [stepOf_next hc hu.stack, setControl, update_update,
      routine_update_self (lt_of_isActive hactive)]
  have hcontrol : ((m.stepOf code i).routine i).control = .running (k (seen o)) := by rw [hr]
  have hafter : ((m.stepOf code i).routine i).control.isActive = true := by rw [hcontrol]; rfl
  obtain ⟨hchain, hrest⟩ := ho.chain_step hown hs hu.chain fun _ => hafter
  exact ⟨hcontrol, by rw [hr], fun c hc => (hu.crossed c hc).step h ho hown hs, hchain,
    fun j hj => (hu.outer j hj).trans (hrest j hj),
    (ho.status_of_isActive hown hs hactive hafter).trans hu.status⟩

/-- Whoever waits for the innermost coroutine has resumed it: a cancellation would have stopped the
outcome. -/
theorem status_innermost (hu : m₀.OnWay m o gone (c :: cs) i js fs k st w) (ho : m.Orderly)
    (hnext : (m.routine (cs.headD i)).control = .listening c) : m.status c = .running := by
  have hcanceling : (m.routine (cs.headD i)).isCanceling = false := by
    unfold Routine.isCanceling
    split
    · next a st' heq =>
      cases cs with
      | nil =>
        have hstack := hu.stack.symm.trans heq
        cases fs with
        | nil => cases hstack
        | cons f fs =>
          obtain rfl : f = .canceling a := (List.cons.inj hstack).1
          exact absurd (hu.above _ List.mem_cons_self) (not_conveys_canceling a)
      | cons d cs =>
        refine absurd (hu.conveys d (by simp) (.canceling a) ?_) (not_conveys_canceling a)
        exact heq ▸ List.mem_cons_self
    · rfl
  rw [ho.tidy.heard c _ hnext, hcanceling]
  rfl

/-- The innermost coroutine ends with the outcome, and whoever waits for it gets the outcome. -/
theorem tells (hu : m₀.OnWay m o gone (c :: cs) i js fs k st w) (h : m.Sound) (ho : m.Orderly)
    (hs : m.step code = some m') (hhead : m.ready.head? = some c)
    (hc : (m.routine c).control = .returning o) (hst : (m.routine c).stack = [])
    (hnext : (m.routine (cs.headD i)).control = .listening c) :
    m'.EndedWith o c ∧ (m'.routine (cs.headD i)).control = .returning o ∧
      (m'.routine (cs.headD i)).stack = (m.routine (cs.headD i)).stack ∧
      m'.status (cs.headD i) = m.status (cs.headD i) := by
  have hactive : (m.routine c).control.isActive = true := by rw [hc]; rfl
  have hfinish : m' = m.finish c o := by
    rw [← stepOf_eq_of_step hhead hs, stepOf_ending hc hst]
  obtain ⟨hstack, hstatus, ⟨hne, -⟩ | ⟨-, htells⟩⟩ := ho.listening_finish hactive hnext hc hst
  · exact absurd rfl hne
  rw [← hfinish] at hstack hstatus htells
  cases htells with
  | output p hreading =>
    have hr := routine_finish ho.tidy hactive o c
    rw [← hfinish] at hr
    rw [hr] at hreading
    simp [finished] at hreading
  | ending o' hc' _ hended hstatus' htold =>
    obtain rfl : o = o' := Control.returning.inj (hc.symm.trans hc')
    refine ⟨⟨(lt_of_isActive hactive).trans_le (h.size_step hs), hended, ?_⟩, htold, hstack, hstatus⟩
    rw [hstatus', hu.status_innermost ho hnext]
    cases o <;> rfl

/-- The innermost coroutine ends, and the next one has the outcome. -/
theorem pass (hu : m₀.OnWay m o gone (c :: cs) i js fs k st w) (h : m.Sound) (ho : m.Orderly)
    (hown : m.yieldsOwn = true) (hs : m.step code = some m') (hhead : m.ready.head? = some c)
    (hc : (m.routine c).control = .returning o) (hst : (m.routine c).stack = []) :
    ∃ w', m₀.OnWay m' o (gone ++ [c]) cs i js fs k st w' := by
  -- The next routine of the chain, and those after it.
  obtain ⟨line, hline⟩ : ∃ line, cs ++ i :: js = cs.headD i :: line := by
    cases cs <;> exact ⟨_, rfl⟩
  have hchain := hu.chain
  rw [List.cons_append, hline] at hchain
  obtain ⟨hnext, hrest⟩ := List.isChain_cons_cons.1 hchain
  obtain ⟨hended, htold, hstack, hstatus⟩ := hu.tells h ho hs hhead hc hst hnext
  have hhead' : m.ready.head? ≠ some (cs.headD i) := by
    rw [hhead]
    intro heq
    rw [← Option.some.inj heq, hc] at hnext
    cases hnext
  obtain ⟨hchain', hunmoved⟩ := ho.chain_step hown hs hrest fun heq => absurd heq hhead'
  rw [← hline] at hchain'
  have hsame : ∀ j ∈ cs ++ i :: js, (m'.routine j).stack = (m.routine j).stack ∧
      m'.status j = m.status j := by
    rw [hline]
    exact List.forall_mem_cons.2 ⟨⟨hstack, hstatus⟩,
      fun j hj => ⟨(hunmoved j hj).stack, (hunmoved j hj).status⟩⟩
  have hjs : ∀ j ∈ js, j ∈ line := by
    intro j hj
    cases cs with
    | nil =>
      obtain ⟨-, rfl⟩ := List.cons.inj hline
      exact hj
    | cons d cs =>
      obtain ⟨-, rfl⟩ := List.cons.inj hline
      simp [hj]
  obtain ⟨hstackᵢ, hstatusᵢ⟩ := hsame i (by simp)
  refine ⟨(_, .ofOutcome (seen o)), hchain', fun d hd f hf => ?_, hu.above, hstackᵢ.trans hu.stack,
    .returning htold rfl, ?_, fun j hj => (hu.outer j hj).trans (hunmoved j (hjs j hj)),
    hstatusᵢ.trans hu.status⟩
  · rw [(hsame d (List.mem_append_left _ hd)).1] at hf
    exact hu.conveys d (List.mem_cons_of_mem _ hd) f hf
  · intro d hd
    rcases List.mem_append.1 hd with hd | hd
    · exact (hu.crossed d hd).step h ho hown hs
    · obtain rfl := List.mem_singleton.1 hd
      exact hended

/-- As long as the innermost routine goes on, the others are left alone. -/
theorem goesOn (hu : m₀.OnWay m o gone cs i js fs k st w) (h : m.Sound) (ho : m.Orderly)
    (hown : m.yieldsOwn = true) (hs : m.step code = some m')
    (hhead : m.ready.head? = some (cs.headD i)) {fs' : List (Frame P V σ)} {w' : ℕ × Code P V σ V}
    (hbears : m'.Bears o (cs.headD i) w')
    (hsub : ∀ f ∈ (m'.routine (cs.headD i)).stack, f ∈ (m.routine (cs.headD i)).stack)
    (hself : cs = [] → (m'.routine i).stack = fs' ++ .next k :: st) (hsame : cs ≠ [] → fs' = fs)
    (habove : ∀ f ∈ fs', f.Conveys o) : m₀.OnWay m' o gone cs i js fs' k st w' := by
  have hcrossed := fun c hc => (hu.crossed c hc).step h ho hown hs
  have hline : cs ++ i :: js = cs.headD i :: (cs ++ i :: js).tail := by cases cs <;> rfl
  obtain ⟨hchain, hrest⟩ := ho.chain_step hown hs (hline ▸ hu.chain) fun _ => hbears.isActive
  have hstatus := ho.status_of_isActive hown hs hu.bears.isActive hbears.isActive
  rw [← hline] at hchain
  cases cs with
  | nil => exact ⟨hchain, by simp, habove, hself rfl, hbears, hcrossed,
      fun j hj => (hu.outer j hj).trans (hrest j hj), hstatus.trans hu.status⟩
  | cons c cs =>
    have hi : m.Unmoved m' i := hrest i (by simp)
    refine ⟨hchain, ?_, habove, ?_, hbears, hcrossed,
      fun j hj => (hu.outer j hj).trans (hrest j (by simp [hj])), hi.status.trans hu.status⟩
    · intro d hd f hf
      rcases List.mem_cons.1 hd with rfl | hd'
      · exact hu.conveys d hd f (hsub f hf)
      · rw [(hrest d (by simp [hd'])).stack] at hf
        exact hu.conveys d hd f hf
    · rw [hsame (by simp)]
      exact hi.stack.trans hu.stack

/-- With a step of the routine that has it, the outcome comes nearer to the code that it is on the way
to, or has come there. -/
theorem advance (hu : m₀.OnWay m o gone cs i js fs k st w) (hab : o.isAbrupt = true) (h : m.Sound)
    (ho : m.Orderly) (hown : m.yieldsOwn = true) (hs : m.step code = some m')
    (hhead : m.ready.head? = some (cs.headD i)) :
    (∃ gone' cs' fs' w', gone' ++ cs' = gone ++ cs ∧
      Prod.Lex (· < ·) Sinks (cs'.length, w') (cs.length, w) ∧
        m₀.OnWay m' o gone' cs' i js fs' k st w') ∨ m₀.Caught m' o (gone ++ cs) i js k st := by
  obtain rfl : m.stepOf code (cs.headD i) = m' := stepOf_eq_of_step hhead hs
  cases hb : hu.bears with
  | @running n d hc hd hn =>
    obtain ⟨hstack, w', hlt, hbears⟩ := Bears.stepOf_running h hab hc hd
    rw [hn] at hlt
    refine .inl ⟨gone, cs, fs, w', rfl, .right _ hlt,
      hu.goesOn h ho hown hs hhead hbears ?_ ?_ (fun _ => rfl) hu.above⟩
    · rw [hstack]
      exact fun _ => id
    · rintro rfl
      exact hstack.trans hu.stack
  | @returning n d hc hn =>
    cases cs with
    | nil =>
      cases fs with
      | nil =>
        rw [List.append_nil]
        exact .inr (hu.caught h ho hown hs hhead hc)
      | cons f fs =>
        have hf := hu.above f List.mem_cons_self
        obtain ⟨hstack, w', hlt, hbears⟩ := Bears.stepOf_returning h hc hu.stack hf d
        rw [hn] at hlt
        refine .inl ⟨gone, [], fs, w', rfl, .right _ hlt,
          hu.goesOn h ho hown hs hhead hbears ?_ (fun _ => hstack) (fun hne => absurd rfl hne)
            fun g hg => hu.above g (List.mem_cons_of_mem _ hg)⟩
        intro g hg
        rw [hstack] at hg
        have hmem : g ∈ f :: (fs ++ .next k :: st) := List.mem_cons_of_mem _ hg
        exact hu.stack ▸ hmem
    | cons c cs =>
      cases hst : (m.routine c).stack with
      | nil =>
        obtain ⟨w', hu'⟩ := hu.pass h ho hown hs hhead hc hst
        exact .inl ⟨gone ++ [c], cs, fs, w', by simp, .left _ _ (Nat.lt_succ_self _), hu'⟩
      | cons f st' =>
        have hf := hu.conveys c List.mem_cons_self f (by rw [hst]; exact List.mem_cons_self)
        obtain ⟨hstack, w', hlt, hbears⟩ := Bears.stepOf_returning h hc hst hf d
        rw [hn] at hlt
        refine .inl ⟨gone, c :: cs, fs, w', rfl, .right _ hlt,
          hu.goesOn h ho hown hs hhead hbears ?_ (fun hnil => nomatch hnil) (fun _ => rfl) hu.above⟩
        intro g hg
        rw [hstack] at hg
        have hmem : g ∈ f :: st' := List.mem_cons_of_mem _ hg
        exact hst ▸ hmem

/-- In every run in which bodies hand out through themselves the outcome is still on its way, or it has
come to the code that it was on the way to. -/
theorem of_reaches (hu : m₀.OnWay m o gone cs i js fs k st w) (hab : o.isAbrupt = true) (h : m.Sound)
    (ho : m.Orderly) (hr : ReachesOwn code m m') :
    (∃ gone' cs' fs' w', gone' ++ cs' = gone ++ cs ∧ m₀.OnWay m' o gone' cs' i js fs' k st w') ∨
      ∃ m₁, ReachesOwn code m m₁ ∧ ReachesOwn code m₁ m' ∧ m₀.Caught m₁ o (gone ++ cs) i js k st := by
  induction hr generalizing gone cs fs w with
  | refl m => exact .inl ⟨gone, cs, fs, w, rfl, hu⟩
  | @step m m₁ m' hown hs hrest ih =>
    have hlater : ∀ gone' cs' fs' w', gone' ++ cs' = gone ++ cs →
        m₀.OnWay m₁ o gone' cs' i js fs' k st w' →
        (∃ gone' cs' fs' w', gone' ++ cs' = gone ++ cs ∧ m₀.OnWay m' o gone' cs' i js fs' k st w') ∨
          ∃ m₂, ReachesOwn code m m₂ ∧ ReachesOwn code m₂ m' ∧
            m₀.Caught m₂ o (gone ++ cs) i js k st := by
      intro gone' cs' fs' w' heq hu'
      have hnext := ih hu' (h.step hs) (ho.step hown hs)
      rw [heq] at hnext
      rcases hnext with hon | ⟨m₂, hr₁, hr₂⟩
      · exact .inl hon
      · exact .inr ⟨m₂, .step hown hs hr₁, hr₂⟩
    by_cases hhead : m.ready.head? = some (cs.headD i)
    · rcases hu.advance hab h ho hown hs hhead with ⟨gone', cs', fs', w', heq, -, hu'⟩ | hcaught
      · exact hlater gone' cs' fs' w' heq hu'
      · exact .inr ⟨m₁, .step hown hs (.refl _), hrest, hcaught⟩
    · exact hlater gone cs fs w rfl (hu.stay h ho hown hs hhead)
  | @turn m m' _ ih =>
    have hu' := hu.congr (routine_passTurn m) (size_passTurn m)
    rcases ih hu' h.passTurn ho.passTurn with hon | ⟨m₁, hr₁, hr₂⟩
    · exact .inl hon
    · exact .inr ⟨m₁, .turn hr₁, hr₂⟩

/-- In every fair run in which bodies hand out through themselves the outcome comes to the code that it
is on the way to. -/
theorem of_isFairRun {f : Nat → Machine P V σ} (hu : m₀.OnWay (f 0) o gone cs i js fs k st w)
    (hab : o.isAbrupt = true) (h : (f 0).Sound) (ho : (f 0).Orderly) (hf : IsFairRun code f)
    (hown : ∀ n, (f n).yieldsOwn = true) : ∃ n, m₀.Caught (f n) o (gone ++ cs) i js k st := by
  have hwf : WellFounded (Prod.Lex (· < ·) (Sinks (P := P) (V := V) (σ := σ))) :=
    (Prod.lex ⟨_, Nat.lt_wfRel.wf⟩ ⟨_, (Prod.lex ⟨_, Nat.lt_wfRel.wf⟩ ⟨_, Code.wf_rest⟩).wf⟩).wf
  obtain ⟨n, -, -, hcaught⟩ := hf.leadsToUnder hown hwf
    (n := 0) (j := cs.headD i) (a := (cs.length, w))
    (Q := fun a x m => m.Sound ∧ m.Orderly ∧ ∃ gone' cs' fs', gone' ++ cs' = gone ++ cs ∧
      a.1 = cs'.length ∧ x = cs'.headD i ∧ m₀.OnWay m o gone' cs' i js fs' k st a.2)
    (G := fun _ m' => m₀.Caught m' o (gone ++ cs) i js k st)
    (by
      rintro a x m ⟨h, -, gone', cs', fs', -, -, rfl, hu⟩
      exact h.linked.ready _ hu.bears.isActive)
    (by
      rintro a x m ⟨h, ho, gone', cs', fs', heq, ha, hx, hu⟩
      exact ⟨h.passTurn, ho.passTurn, gone', cs', fs', heq, ha, hx,
        hu.congr (routine_passTurn m) (size_passTurn m)⟩)
    (by
      rintro a x m m' ⟨h, ho, gone', cs', fs', heq, ha, rfl, hu⟩ hown hs hhead
      exact ⟨h.step hs, ho.step hown hs, gone', cs', fs', heq, ha, rfl,
        hu.stay h ho hown hs hhead⟩)
    (by
      rintro ⟨l, w⟩ x m m' ⟨h, ho, gone', cs', fs', heq, rfl, rfl, hu⟩ hown hs hhead
      rcases hu.advance hab h ho hown hs hhead with ⟨gone'', cs'', fs'', w', heq', hlt, hu'⟩ | hcaught
      · exact .inl ⟨(cs''.length, w'), _, hlt, h.step hs, ho.step hown hs, gone'', cs'', fs'',
          heq'.trans heq, rfl, rfl, hu'⟩
      · exact .inr (heq ▸ hcaught))
    ⟨h, ho, gone, cs, fs, rfl, rfl, rfl, hu⟩
  exact ⟨n + 1, hcaught⟩

end OnWay

/-! ## What becomes of the outcome and of the coroutines -/

end Machine

end OneShot
