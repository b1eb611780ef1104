import OneShot.Proofs.Calling

/-!
# Programs whose main line is a strand

A program that opens a context, and then uses only effects, handlers and continuations, is one strand, from the
first step of the main line after that. So the calls that the program makes, and the outcome with which it
ends, are those that `Strand.Comes` says: `OnCourse.main` and `OnCourse.main_fair`.
-/

namespace OneShot

variable {P V σ : Type}

namespace Machine

open Control

variable {code : P → Entry V → Code P V σ V} {m m' : Machine P V σ} {i f x : RoutineId}
  {st₀ : List (Frame P V σ)} {q : Strand P V σ} {opened : ContextId → Prop} {around : Option ContextId}
  {o : Outcome V V} {calls cs : List (Call P V)} {R : Outcome V V → Prop}

/-! ## The main line -/

theorem outbox_close (m : Machine P V σ) (c j : RoutineId) :
    ((m.close c).2.routine j).outbox = (m.routine j).outbox := by
  unfold close
  split
  · dsimp only
    rw [routine_wake, deliver_eq, setControl, routine_update, routine_update]
    split_ifs <;> rfl
  · dsimp only
    split
    · rw [setStatus, routine_update]
      split <;> rfl
    · rfl

/-- Nobody hands out through the main line, so its outbox is its own. -/
theorem Passes.outbox_main {T : RegistryId → Prop} (h : m.Passes T x m') (ht : m.Tidy)
    (hx : (m.routine x).control.isActive = true) (hne : x ≠ .main) (hpos : 0 < m.routines.size) :
    (m'.routine .main).outbox = (m.routine .main).outbox := by
  have harranges : ∀ {m₁}, Arranges T x m m₁ →
      (m₁.routine .main).outbox = (m.routine .main).outbox ∧ 0 < m₁.routines.size := by
    intro m₁ ha
    induction ha with
    | refl => exact ⟨rfl, hpos⟩
    | inward _ hq _ ih => exact ⟨(hq.outbox .main).trans ih.1, hq.size ▸ ih.2⟩
    | @grows m₁ _ r hr ih =>
      have hmain : RoutineId.main ≠ m₁.next := fun heq => by
        have hval := congrArg RoutineId.val heq
        simp only [RoutineId.main, next] at hval
        omega
      refine ⟨?_, by simp [grow]⟩
      rw [routine_grow, if_neg hmain]
      exact ih.1
    | @closes m₁ _ c ih => exact ⟨(outbox_close ..).trans ih.1, (size_close m₁ c).symm ▸ ih.2⟩
  have hover : ∀ {m₁ : Machine P V σ} {c : RoutineId} {a : Status} {y : Input V}, m₁.Tidy →
      (m₁.routine x).control.isActive = true → (m₁.status c).isResumable = true → c ≠ .main →
        ((m₁.handOver x c a y).routine .main).outbox = (m₁.routine .main).outbox := by
    intro m₁ c a y ht₁ hx₁ hc hmain
    obtain ⟨r, hin⟩ := ht₁.exists_reader hc
    rw [routine_handOver ht₁ hx₁ hc hin]
    exact if_neg hmain.symm
  cases h with
  | @transfers m₁ _ ha htr =>
    obtain ⟨ht₁, hcontrol, -⟩ := ha.own_eq ht hx
    have hx₁ : (m₁.routine x).control.isActive = true := hcontrol ▸ hx
    refine Eq.trans ?_ (harranges ha).1
    cases htr with
    | goes hd =>
      rw [setControl, routine_update]
      split <;> rfl
    | resumes p hc hmain hst => exact hover ht₁ hx₁ hc hmain
    | cancels hc hmain hst => exact hover ht₁ hx₁ (by rw [hc]; rfl) hmain
    | @disposes c r answer hin hmain hc =>
      rw [routine_join (ht₁.isActive_close hx₁ hin) hc]
      exact outbox_close m₁ c .main
    | yields p hc hmain hown =>
      obtain ⟨l, hout⟩ := ht₁.exists_listener hc hmain
      rw [routine_yield ht₁ hx₁ hc hout]
      exact if_neg hmain.symm
  | ends hc hst =>
    rw [routine_finish ht hx]
    exact if_neg hne.symm

/-- The main line has ended with the outcome. -/
structure Ended (m : Machine P V σ) (o : Outcome V V) : Prop where
  control : (m.routine .main).control = .ended
  outbox : (m.routine .main).outbox = .full (o.map .plain)

theorem Arrived.congr (hr : ∀ j, m'.routine j = m.routine j) (h : m.Arrived i st₀ o) :
    m'.Arrived i st₀ o := ⟨by rw [hr]; exact h.control, by rw [hr]; exact h.stack⟩

theorem Ended.congr (hr : ∀ j, m'.routine j = m.routine j) (h : m.Ended o) : m'.Ended o :=
  ⟨by rw [hr]; exact h.control, by rw [hr]; exact h.outbox⟩

/-- The main line ends with the outcome that has come to its first frame. -/
theorem Arrived.ends (h : m.Arrived .main [] o) (ht : m.Tidy) : (m.stepOf code .main).Ended o := by
  have hactive : (m.routine .main).control.isActive = true := by rw [h.control]; rfl
  have hstep : m.stepOf code .main = m.finish .main (o.map .plain) :=
    stepOf_ending h.control h.stack
  have hempty : (m.routine .main).outbox = .empty := by
    cases hout : (m.routine .main).outbox with
    | empty => rfl
    | full a =>
      have hended := (ht.slotted .main).outbox a hout
      cases h.control.symm.trans hended
    | awaited j => exact absurd ((ht.listener .main j).1 hout) (ht.main.2 j).1
  rw [hstep]
  constructor
  · rw [routine_finish ht hactive]
    simp only [finished, if_true]
  · rw [routine_finish ht hactive]
    simp only [finished, if_true, hempty, Slot.sent]

/-- The outcome of the main line is not changed any more, and nothing is called on its line. -/
theorem Calls.of_arrived (hrun : Calls code .main m cs m') (hm : m.Proper)
    (h : m.Arrived .main [] o ∨ m.Ended o) : (m'.Arrived .main [] o ∨ m'.Ended o) ∧ cs = [] := by
  induction hrun with
  | refl m => exact ⟨h, rfl⟩
  | @step m m₁ m' call cs hcall hstep _ ih =>
    -- The main line listens to nobody, so it is alone on its line.
    have hline : ∀ x, m.OnLine .main x → x = .main := by
      intro x hx
      cases hx.cases_head with
      | inl heq => exact heq.symm
      | inr hstep =>
        obtain ⟨s, hs, -⟩ := hstep
        rcases h with h | h
        · cases h.control.symm.trans hs
        · cases h.control.symm.trans hs
    have hsilent : call = none := by
      cases hcall with
      | @on x hhead hx =>
        obtain rfl := hline x hx
        rcases h with h | h
        · exact call?_of_returning h.control (signal?_map_plain o)
        · rw [call?, h.control]
      | beside _ _ => rfl
    have hnext : m₁.Arrived .main [] o ∨ m₁.Ended o := by
      obtain ⟨x, ready, hready, ⟨hx, hpasses, rfl⟩ | ⟨-, rfl⟩⟩ := hm.tidy.step_cases hstep
      · by_cases hmain : x = .main
        · subst hmain
          rcases h with h | h
          · exact .inr (h.ends hm.tidy)
          · rw [h.control] at hx
            cases hx
        · rcases h with h | h
          · have hf : m.Follows x (m.stepOf code x) := hm.sound.stepOf hx
            obtain ⟨hcontrol, hstack⟩ := hf.routine_of_isActive hm.sound (Ne.symm hmain)
              (by rw [h.control]; rfl)
            exact .inl ⟨hcontrol.trans h.control, hstack.trans h.stack⟩
          · have hout := (hpasses.outbox_main hm.tidy hx hmain hm.sound.linked.main.2).trans h.outbox
            exact .inr ⟨(((hm.step hstep).tidy.slotted .main).outbox _ hout), hout⟩
      · exact h.imp (.congr (routine_pause m x)) (.congr (routine_pause m x))
    obtain ⟨hend, rfl⟩ := ih (hm.step hstep) hnext
    exact ⟨hend, by rw [hsilent]; rfl⟩
  | turn _ ih =>
    exact ih hm.passTurn (h.imp (.congr (routine_passTurn _)) (.congr (routine_passTurn _)))

/-- In every fair run the main line ends. -/
theorem Arrived.ends_fair {g : Nat → Machine P V σ} {n : Nat} (hfair : IsFairRun code g)
    (hm : (g n).Proper) (h : (g n).Arrived .main [] o) : ∃ k, n ≤ k ∧ (g k).Ended o := by
  have hnears : Nears code (· < ·) (fun (_ : Nat) j m => j = .main ∧ m.Proper ∧ m.Arrived .main [] o)
      (fun _ m' => m'.Ended o) := by
    refine ⟨Nat.lt_wfRel.wf, ?_, ?_, ?_, ?_⟩
    · rintro _ j m ⟨rfl, hm, h⟩
      exact hm.sound.linked.ready .main (by rw [h.control]; rfl)
    · rintro _ j m ⟨rfl, hm, h⟩
      exact ⟨rfl, hm.passTurn, h.congr (routine_passTurn m)⟩
    · rintro _ j m m' ⟨rfl, hm, h⟩ hstep hhead
      refine ⟨rfl, hm.step hstep, ?_⟩
      obtain ⟨x, ready, hready, ⟨-, -, hf⟩ | ⟨-, rfl⟩⟩ := hm.sound.step_cases hstep
      · have hne : RoutineId.main ≠ x := by
          rintro rfl
          exact hhead (by rw [hready]; rfl)
        obtain ⟨hcontrol, hstack⟩ := hf.routine_of_isActive hm.sound hne (by rw [h.control]; rfl)
        exact ⟨hcontrol.trans h.control, hstack.trans h.stack⟩
      · exact h.congr (routine_pause m x)
    · rintro _ j m m' ⟨rfl, hm, h⟩ hstep hhead
      obtain rfl : m.stepOf code .main = m' := stepOf_eq_of_step hhead hstep
      exact .inr (h.ends hm.tidy)
  obtain ⟨k, hnk, -, hended⟩ := hnears.of_isFairRun hfair (a := 0) ⟨rfl, hm, h⟩
  exact ⟨k + 1, by omega, hended⟩

section Main

variable (h : OnCourse code opened around .main [] m f q)
  (hcomes : Strand.Comes code opened around (Strand.Ends R) q calls)
include h hcomes

/-- What the main line has called, and how it ends if it has. -/
theorem OnCourse.main (hrun : Calls code .main m cs m') :
    cs <+: calls ∧ ((m'.routine .main).control = .ended → cs = calls ∧ ∃ o, R o ∧ m'.Ended o) := by
  rcases OnCourse.follows hrun h hcomes with
    ⟨f', q', rest, h', -, rfl⟩ | ⟨m₁, o, after, hbefore, harrived, ho, hafter, rfl⟩
  · refine ⟨List.prefix_append cs rest, fun hended => ?_⟩
    have hunder := h'.plays.isUnderWay
    rw [hended] at hunder
    cases hunder
  · obtain ⟨hend, rfl⟩ := hafter.of_arrived (h.proper.of_reaches hbefore.reaches) (.inl harrived)
    rw [List.append_nil]
    refine ⟨List.prefix_rfl, fun hended => ⟨rfl, o, ho, hend.resolve_left fun harrived' => ?_⟩⟩
    cases hended.symm.trans harrived'.control

/-- The main line ends in every fair run. -/
theorem OnCourse.main_fair {g : Nat → Machine P V σ} {n : Nat} (hfair : IsFairRun code g) (hn : g n = m) :
    ∃ k o, n ≤ k ∧ R o ∧ (g k).Ended o := by
  subst hn
  obtain ⟨k, o, hnk, ho, harrived⟩ := h.arrives hfair hcomes
  obtain ⟨k', hk', hended⟩ := harrived.ends_fair hfair (h.proper.of_reaches (hfair.reaches hnk))
  exact ⟨k', o, by omega, ho, hended⟩

end Main

/-! ## Programs on one context -/

section OneContext

variable (store : σ) (config : Config) (c : Context → Code P V σ V)

/-- A program that opens one context. -/
def onOneContext : Machine P V σ := initial store (.ask (.openContext config) c)

/-- The context that it opens. -/
def onlyContext : Context := ⟨⟨0⟩, config⟩

/-- The machine in which the context is open. -/
def contextOpen : Machine P V σ :=
  { initial store (c (onlyContext config)) with contexts := #[.empty] }

theorem step_onOneContext : (onOneContext store config c).step code = some (contextOpen store config c) := rfl

variable {store config c}

/-- A program that opens one context plays a strand on it. -/
theorem onCourse_contextOpen (huses : ∀ m', Reaches code (onOneContext store config c) m' → m'.UsesOwn) :
    OnCourse code (· = ⟨0⟩) none .main [] (contextOpen store config c) .main
      (.running (c (onlyContext config)) []) where
  proper := Proper.step (proper_initial store _) (step_onOneContext store config c : step code _ = _)
  uses m' hr := huses m' (.step (step_onOneContext store config c) hr)
  base := rfl
  edge := by
    intro d
    constructor
    · rintro ⟨⟩
    · rintro ⟨j, ⟨scope, hscope, -⟩, -⟩
      cases hscope
  opened := by
    rintro _ rfl
    exact Nat.one_pos
  plays := .running rfl ⟨[], [], [], [], rfl, .nil, .begin, rfl⟩

/-- Before it has opened the context, the program has done nothing. -/
theorem Calls.of_onOneContext {m₀ : Machine P V σ} (hrun : Calls code .main m₀ cs m)
    (hm : m₀ = onOneContext store config c) :
    m = onOneContext store config c ∧ cs = [] ∨ Calls code .main (contextOpen store config c) cs m := by
  induction hrun with
  | refl m => exact .inl ⟨hm, rfl⟩
  | @step m m₁ m' call cs hcall hstep hrest ih =>
    subst hm
    obtain rfl : contextOpen store config c = m₁ :=
      Option.some.inj ((step_onOneContext store config c).symm.trans hstep)
    have hsilent : call = none := by
      cases hcall with
      | @on x hhead _ =>
        obtain rfl : RoutineId.main = x := Option.some.inj hhead
        rfl
      | beside _ _ => rfl
    rw [hsilent]
    exact .inr hrest
  | turn _ ih =>
    subst hm
    exact ih rfl

/-- In every fair run it opens the context. -/
theorem exists_contextOpen {g : Nat → Machine P V σ} (hfair : IsFairRun code g)
    (h0 : g 0 = onOneContext store config c) : ∃ k, g k = contextOpen store config c := by
  have hnears : Nears code (· < ·) (fun (_ : Nat) j m => j = .main ∧ m = onOneContext store config c)
      (fun _ m' => m' = contextOpen store config c) := by
    refine ⟨Nat.lt_wfRel.wf, ?_, ?_, ?_, ?_⟩
    · rintro _ j m ⟨rfl, rfl⟩
      exact List.mem_cons_self
    · rintro _ j m ⟨rfl, rfl⟩
      exact ⟨rfl, rfl⟩
    · rintro _ j m m' ⟨rfl, rfl⟩ - hhead
      exact absurd rfl hhead
    · rintro _ j m m' ⟨rfl, rfl⟩ hstep -
      exact .inr (Option.some.inj (hstep.symm.trans (step_onOneContext store config c)))
  obtain ⟨k, -, -, hk⟩ := hnears.of_isFairRun hfair (n := 0) (a := 0) ⟨rfl, h0⟩
  exact ⟨k + 1, hk⟩

/-- A program on one context makes the calls to which its strand comes, on its main line and in this order, and
it ends as the strand does. -/
theorem runs_onOneContext {o : Outcome V V}
    (huses : ∀ m', Reaches code (onOneContext store config c) m' → m'.UsesOwn)
    (hcomes : Strand.Comes code (· = ⟨0⟩) none (Strand.Ends (· = o)) (.running (c (onlyContext config)) [])
      calls) :
    (∀ cs m, Calls code .main (onOneContext store config c) cs m →
      cs <+: calls ∧ ((m.routine .main).control = .ended → cs = calls ∧ m.Ended o)) ∧
      ∀ g, IsFairRun code g → g 0 = onOneContext store config c → ∃ n, (g n).Ended o := by
  have hcourse := onCourse_contextOpen huses
  refine ⟨fun cs m hrun => ?_, fun g hfair h0 => ?_⟩
  · rcases hrun.of_onOneContext rfl with ⟨rfl, rfl⟩ | hrun
    · refine ⟨List.nil_prefix, fun hended => ?_⟩
      cases hended
    · obtain ⟨hcalls, hend⟩ := hcourse.main hcomes hrun
      refine ⟨hcalls, fun hended => ?_⟩
      obtain ⟨heq, o', rfl, ho⟩ := hend hended
      exact ⟨heq, ho⟩
  · obtain ⟨n, hn⟩ := exists_contextOpen hfair h0
    obtain ⟨k, o', -, rfl, ho⟩ := hcourse.main_fair hcomes hfair hn
    exact ⟨k, ho⟩

end OneContext

end Machine

end OneShot
