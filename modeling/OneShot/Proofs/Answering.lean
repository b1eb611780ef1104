import OneShot.Proofs.Origins

/-!
# The answer to a perform

Whoever resumes a continuation answers the perform that the continuation was made for. A forwarded
continuation is resumed in a scope of its own, whose body resumes the continuation that came up from
inside, and so on down to the body that performs. `Answering` says where the answer is meanwhile.
-/

namespace OneShot

variable {P V σ : Type}

namespace Machine

open Control

variable {code : P → Entry V → Code P V σ V} {m m₀ m' : Machine P V σ} {i j : RoutineId} {v : V}
  {n : Outcome V V → Code P V σ V} {st : List (Frame P V σ)} {d : Nat}

/-- The answer `v` is on its way to the perform of body `i`, with the code `n` above the frames `st` below
it. The routine given last has it next, and the number says how many steps with it are still to come. -/
inductive Answering (m : Machine P V σ) (v : V) (i : RoutineId) (n : Outcome V V → Code P V σ V)
    (st : List (Frame P V σ)) : Nat → RoutineId → Prop where
  /-- A routine resumes a continuation of the body with its first step. -/
  | rejoins (k : Cont) (j : RoutineId) (a : Parcel V) (hk : ⟨.datum, i⟩ ∈ k.keys)
    (control : (m.routine j).control = .starting (.rejoin k (.datum v)) a)
    (stack : (m.routine i).stack = .performing :: .next n :: st) :
    Answering m v i n st (k.keys.length + 2) j
  /-- The body has it in its perform. -/
  | comes (control : (m.routine i).control = .returning (.value (.boxed (.datum v))))
    (stack : (m.routine i).stack = .performing :: .next n :: st) : Answering m v i n st 2 i
  /-- The perform returns it. -/
  | returns (control : (m.routine i).control = .returning (.value (.plain v)))
    (stack : (m.routine i).stack = .next n :: st) : Answering m v i n st 1 i

/-- The code of body `i` has the answer `v` to its perform. -/
structure Answered (m : Machine P V σ) (v : V) (i : RoutineId) (n : Outcome V V → Code P V σ V)
    (st : List (Frame P V σ)) : Prop where
  control : (m.routine i).control = .running (n (.value v))
  stack : (m.routine i).stack = st

namespace Answering

theorem isActive (h : m.Answering v i n st d j) : (m.routine j).control.isActive = true := by
  cases h with
  | rejoins _ _ _ _ hc _ => rw [hc]; rfl
  | comes hc _ => rw [hc]; rfl
  | returns hc _ => rw [hc]; rfl

theorem congr (hr : ∀ l, m'.routine l = m.routine l) (h : m.Answering v i n st d j) :
    m'.Answering v i n st d j := by
  cases h with
  | rejoins k j a hk control stack => exact .rejoins k j a hk (by rwa [hr]) (by rwa [hr])
  | comes control stack => exact .comes (by rwa [hr]) (by rwa [hr])
  | returns control stack => exact .returns (by rwa [hr]) (by rwa [hr])

/-- The steps of other routines do not concern it. -/
theorem stay (hu : m.Answering v i n st d j) (h : m.Sound) (hstep : m.step code = some m')
    (hhead : m.ready.head? ≠ some j) : m'.Answering v i n st d j := by
  obtain ⟨x, ready, hready, ⟨hx, -, hf⟩ | ⟨-, rfl⟩⟩ := h.step_cases hstep
  case inr => exact hu.congr (routine_pause m x)
  have hjx : j ≠ x := fun heq => hhead (by rw [hready, heq]; rfl)
  obtain ⟨hcontrol, hstack⟩ := hf.routine_of_isActive h hjx hu.isActive
  cases hu with
  | rejoins k j a hk control stack =>
    -- The body waits, so it does not make the step.
    have hwaits := h.waits_of_carriedBy (j := j) (y := ⟨.datum, i⟩) (.inl (by rw [control]; exact hk))
    have hix : i ≠ x := by
      rintro rfl
      exact h.linked.not_waits hx hwaits
    refine .rejoins k j a hk (hcontrol.trans control) ?_
    rw [hf.influences.stack i hix (lt_of_scope hwaits.1)]
    exact stack
  | comes control stack => exact .comes (hcontrol.trans control) (hstack.trans stack)
  | returns control stack => exact .returns (hcontrol.trans control) (hstack.trans stack)

/-- A routine resumes a continuation of the body with the answer. -/
theorem of_continueWith {k : Cont} (hwork : m₀.Works j m k.keys []) (hk : ⟨.datum, i⟩ ∈ k.keys)
    (hst : (m.routine i).stack = .performing :: .next n :: st) :
    ∃ d j', d < k.keys.length + 2 ∧ (m.continueWith j k (.datum v)).Answering v i n st d j' := by
  have hne : j ≠ i := by
    obtain ⟨-, -, -, -, -, -, -, hne⟩ := hwork.atWork.suspended hk
    exact hne
  cases k with
  | direct s =>
    obtain rfl : i = s := by simpa [Cont.keys] using hk
    obtain ⟨scope, hscope, hstatus, hinbox, hout, hcontrol, -, -⟩ := hwork.atWork.suspended hk
    have hr := routine_enterScope (b := .datum v) hscope hstatus hinbox hout hcontrol hne hwork.lt i
    rw [if_neg hne.symm, if_pos rfl] at hr
    refine ⟨2, i, by simp [Cont.keys], .comes ?_ ?_⟩
    · exact congrArg Routine.control hr
    · exact (congrArg Routine.stack hr).trans hst
  | through s inner =>
    have hinner : (⟨.datum, i⟩ : Key) ∈ inner.keys := by simpa [Cont.keys] using hk
    obtain ⟨scope, hscope, -⟩ := hwork.atWork.suspended (y := ⟨.result, s⟩) (by simp [Cont.keys])
    obtain ⟨scope', hscope', -⟩ := hwork.atWork.suspended hk
    have hi : i.val < m.routines.size := lt_of_scope (i := i) (by rw [hscope']; rfl)
    simp only at hscope
    have hlt : j.val < ((m.hold s).pushFrame j (.holding s)).routines.size := by
      simpa [pushFrame, hold] using hwork.lt
    have hr := routine_openScope (m := (m.hold s).pushFrame j (.holding s))
      (.rejoin inner (.datum v)) (rfl : (scope.rejoining s).holders = 0) hlt
    have hnext : ((m.hold s).pushFrame j (.holding s)).next = m.next := by
      simp [next, pushFrame, hold]
    have hnew : m.next ≠ j ∧ i ≠ m.next := by
      constructor <;> rintro rfl
      · exact Nat.lt_irrefl _ hwork.lt
      · exact Nat.lt_irrefl _ hi
    rw [hnext] at hr
    simp only [Machine.continueWith, hscope]
    refine ⟨inner.keys.length + 2, m.next, by simp [Cont.keys],
      .rejoins inner m.next (.boxed .start) hinner ?_ ?_⟩
    · rw [hr, if_neg hnew.1, if_pos rfl]
      rfl
    · rw [hr, if_neg hne.symm, if_neg hnew.2, pushFrame, routine_update_of_ne hne, hold,
        routine_update]
      split <;> exact hst

/-- With a step of the routine that has it, the answer comes nearer to the code, or has come there. -/
theorem advance (hu : m.Answering v i n st d j) (h : m.Sound) (hstep : m.step code = some m')
    (hhead : m.ready.head? = some j) :
    (∃ d' j', d' < d ∧ m'.Answering v i n st d' j') ∨ m'.Answered v i n st := by
  obtain rfl : m.stepOf code j = m' := stepOf_eq_of_step hhead hstep
  have hactive := hu.isActive
  cases hu with
  | rejoins k j a hk control stack =>
    have hposture := h.linked.posture j (by simp)
    simp only [Routine.Posture, control] at hposture
    have hwork : m.Works j m (m.routine j).control.keys [] :=
      h.works hactive fun c t => by simp [Routine.entries, hposture.1]
    rw [control] at hwork
    have hpush := hwork.pushFrame (f := .rejoining) (fun _ => rfl) fun _ => rfl
    have hstart : m.stepOf code j = (m.pushFrame j .rejoining).continueWith j k (.datum v) := by
      rw [stepOf_starting control]
      rfl
    have hne : j ≠ i := by
      obtain ⟨-, -, -, -, -, -, -, hne⟩ := hpush.atWork.suspended hk
      exact hne
    obtain ⟨d', j', hlt, hon⟩ := of_continueWith (v := v) (n := n) hpush hk
      (by rw [pushFrame, routine_update_of_ne hne]; exact stack)
    rw [hstart]
    exact .inl ⟨d', j', hlt, hon⟩
  | comes control stack =>
    have hr : (m.stepOf code i).routine i =
        { m.routine i with stack := .next n :: st, control := .returning (.value (.plain v)) } := by
      rw [stepOf_returning control stack]
      dsimp only [Machine.unwind]
      rw [reply, setControl, update_update, routine_update_self (lt_of_isActive hactive)]
    exact .inl ⟨1, i, Nat.lt_succ_self 1, .returns (by rw [hr]) (by rw [hr])⟩
  | returns control stack =>
    have hr : (m.stepOf code i).routine i =
        { m.routine i with stack := st, control := .running (n (.value v)) } := by
      rw [stepOf_next control stack, setControl, update_update,
        routine_update_self (lt_of_isActive hactive)]
      rfl
    exact .inr ⟨by rw [hr], by rw [hr]⟩

end Answering

/-- An answer comes nearer to the perform with each step of the routine that has it. -/
theorem answering_nears (code : P → Entry V → Code P V σ V) (v : V) (i : RoutineId)
    (n : Outcome V V → Code P V σ V) (st : List (Frame P V σ)) :
    Nears code (· < ·) (fun d j m => m.Sound ∧ m.Answering v i n st d j)
      (fun _ m' => m'.Answered v i n st) where
  wf := Nat.lt_wfRel.wf
  ready _ j _ hq := hq.1.linked.ready j hq.2.isActive
  turn _ _ m hq := ⟨hq.1.passTurn, hq.2.congr (routine_passTurn m)⟩
  other _ _ _ _ hq hstep hhead := ⟨hq.1.step hstep, hq.2.stay hq.1 hstep hhead⟩
  own _ _ _ _ hq hstep hhead := by
    rcases hq.2.advance hq.1 hstep hhead with ⟨d', j', hlt, hon⟩ | hdone
    · exact .inl ⟨d', j', hlt, hq.1.step hstep, hon⟩
    · exact .inr hdone

/-- With the step in which code resumes a continuation, the answer is on its way. -/
theorem Sound.answering (h : m.Sound) {p : ContId} {k : Cont} {next : Outcome V V → Code P V σ V}
    (hc : (m.routine j).control = .running (.act (.continueWith p v) next))
    (hp : m.conts.getD p.val none = some k) (hk : ⟨.datum, i⟩ ∈ k.keys)
    (hst : (m.routine i).stack = .performing :: .next n :: st) :
    ∃ d j', (m.stepOf code j).Answering v i n st d j' := by
  have hactive : (m.routine j).control.isActive = true := by rw [hc]; rfl
  have hsettled : Settled (m.routine j).role (m.routine j).stack := by
    have hposture := h.linked.posture j (by simp)
    simpa only [Routine.Posture, hc] using hposture
  have hwork := (h.worksSettled hactive (by rw [hc]; rfl) hsettled).pushFrame (f := .next next)
    (fun _ => rfl) fun _ => rfl
  have htake := hwork.takeCont p
  have hconts : (m.pushFrame j (.next next)).conts.getD p.val none = some k := hp
  have hkeys : (m.pushFrame j (.next next)).keptAt p ++ [] = k.keys := by
    rw [keptAt, hconts]
    exact List.append_nil _
  rw [hkeys] at htake
  have hne : j ≠ i := by
    obtain ⟨-, -, -, -, -, -, -, hne⟩ := htake.atWork.suspended hk
    exact hne
  have hbegin : m.stepOf code j =
      ((m.pushFrame j (.next next)).takeCont p).2.continueWith j k (.datum v) := by
    rw [stepOf_act hc]
    simp only [Machine.begin, Machine.takeCont, hconts]
  obtain ⟨d, j', -, hon⟩ := Answering.of_continueWith (v := v) (n := n) htake hk (by
    show ((m.pushFrame j (.next next)).routine i).stack = _
    rw [pushFrame, routine_update_of_ne hne]
    exact hst)
  rw [hbegin]
  exact ⟨d, j', hon⟩

end Machine

end OneShot
