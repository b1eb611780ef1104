import OneShot.Proofs.Lifecycle
import OneShot.Proofs.Orderly

/-!
# How the status of a coroutine changes

The status of a coroutine is written on both sides: by whoever resumes, cancels or drops it, and by
its body. `Changes` lists the changes, each with what brings it about. `Orderly.status_step` shows
that a step makes no other change, as long as bodies hand out through themselves; so no run leaves a
terminal status, and no body returns twice. An operation that the status forbids fails at once, and
leaves the machine as it was.
-/

namespace OneShot

variable {P V σ : Type}

namespace Machine

open Control

variable {code : P → Entry V → Code P V σ V} {m m₁ m₂ m' : Machine P V σ} {i j s c r l : RoutineId}
  {x : Input V} {o : Outcome V (Parcel V)} {R : RegistryId → Prop}

/-- A step of routine `i` changes the status of coroutine `c`. -/
inductive Changes (m m' : Machine P V σ) (i c : RoutineId) : Status → Status → Prop where
  /-- A resume is accepted, and the body begins. -/
  | begins {s : Start P V} {p : Parcel V} (hl : (m'.routine i).control = .listening c)
    (hc : (m.routine c).control = .fresh s) (hc' : (m'.routine c).control = .starting s p) :
    Changes m m' i c .notRunning .running
  /-- A resume is accepted, and the yield comes back. -/
  | resumes {p : Parcel V} (hl : (m'.routine i).control = .listening c)
    (hc : (m.routine c).control = .reading c)
    (hc' : (m'.routine c).control = .returning (.value p)) : Changes m m' i c .suspending .running
  /-- The body hands out, and a resume comes back. -/
  | yields {p : Parcel V} (hi : i = c) (hc' : (m'.routine c).control = .reading c)
    (hl : ∃ l, (m.routine l).control = .listening c ∧
      (m'.routine l).control = .returning (.value p)) : Changes m m' i c .running .suspending
  /-- The coroutine is canceled or dropped, and the yield fails. -/
  | cancels (hc : (m.routine c).control = .reading c)
    (hc' : (m'.routine c).control = .returning (.failure .canceled)) :
    Changes m m' i c .suspending .canceled
  /-- The coroutine is dropped, and the body will never begin. -/
  | drops {s : Start P V} (hc : (m.routine c).control = .fresh s)
    (hc' : (m'.routine c).control = .ended) : Changes m m' i c .notRunning .canceled
  /-- The body returns a value or fails. -/
  | returns {o : Outcome V (Parcel V)} (hi : i = c) (hc : (m.routine c).control = .returning o)
    (hst : (m.routine c).stack = []) (ho : ∀ p, o ≠ .panic p)
    (hc' : (m'.routine c).control = .ended) : Changes m m' i c .running .done
  /-- The body panics. -/
  | panics {p : V} (hi : i = c) (hc : (m.routine c).control = .returning (.panic p))
    (hst : (m.routine c).stack = []) (hc' : (m'.routine c).control = .ended) :
    Changes m m' i c .running .panicked
  /-- The body panics while it is unwound. -/
  | unwinds {p : V} (hi : i = c) (hc : (m.routine c).control = .returning (.panic p))
    (hst : (m.routine c).stack = []) (hc' : (m'.routine c).control = .ended) :
    Changes m m' i c .canceled .panicked

namespace Changes

variable {a b : Status}

theorem isTerminal (h : Changes m m' i c a b) (ha : a.isTerminal = true) : b.isTerminal = true := by
  cases h <;> first | rfl | cases ha

theorem ne_final (h : Changes m m' i c a b) : a ≠ .done ∧ a ≠ .panicked := by
  cases h <;> simp

/-- A canceled coroutine changes its status itself. -/
theorem eq_of_canceled (h : Changes m m' i c .canceled b) : i = c := by
  cases h
  assumption

/-- Only a body that has not ended changes the status. -/
theorem ne_ended (h : Changes m m' i c a b) (hi : (m.routine i).control.isActive = true) :
    (m.routine c).control ≠ .ended := by
  have hactive := ne_ended_of_isActive hi
  cases h with
  | yields hi' => exact hi' ▸ hactive
  | _ => simp_all

/-- What the arrangements before a change leave alone does not count. -/
theorem of_before (h : Changes m₁ m' i c a b) (hc : (m₁.routine c).control = (m.routine c).control)
    (hl : ∀ l, (m₁.routine l).control = .listening c → (m.routine l).control = .listening c)
    (hne : (m'.routine i).control ≠ .ended) : Changes m m' i c a b := by
  cases h with
  | begins hl' hf hc' => exact .begins hl' (hc ▸ hf) hc'
  | resumes hl' hr hc' => exact .resumes hl' (hc ▸ hr) hc'
  | yields hi hc' hhear =>
    obtain ⟨l, hlis, hl'⟩ := hhear
    exact .yields hi hc' ⟨l, hl l hlis, hl'⟩
  | cancels hr hc' => exact .cancels (hc ▸ hr) hc'
  | drops hf hc' => exact .drops (hc ▸ hf) hc'
  | returns hi _ _ _ hc' => exact absurd (hi ▸ hc') hne
  | panics hi _ _ hc' => exact absurd (hi ▸ hc') hne
  | unwinds hi _ _ hc' => exact absurd (hi ▸ hc') hne

end Changes

/-! ## The parts of a step -/

section Transfers

variable (h : m.Orderly) (hi : (m.routine i).control.isActive = true)
include h hi

theorem Orderly.status_handOver (hc : (m.status c).isResumable = true) {a : Status}
    (hchange : ∀ m', (m'.routine i).control = .listening c →
      (m'.routine c).control = (m.routine c).control.take x → Changes m m' i c (m.status c) a)
    (j : RoutineId) :
    (m.handOver i c a x).status j = m.status j ∧
      (((m.handOver i c a x).routine j).control = (m.routine j).control ∨ j = i) ∨
    Changes m (m.handOver i c a x) i j (m.status j) ((m.handOver i c a x).status j) := by
  obtain ⟨hin, -⟩ := h.resumable hc
  have hr := routine_handOver h.tidy hi hc hin a x
  have hci := h.tidy.ne_reader hi hin
  generalize m.handOver i c a x = m' at hr
  simp only [status, hr, handedOver]
  by_cases hjc : j = c
  · subst hjc
    refine .inr ?_
    rw [if_pos rfl]
    refine hchange m' ?_ ?_ <;> simp [hr, handedOver, hci]
  · refine .inl ⟨by simp [hjc], ?_⟩
    by_cases hji : j = i
    · exact .inr hji
    · simp [hjc, hji]

/-- A routine that is disposed of is given up, and only `i` waits for it. -/
theorem Orderly.status_dispose {r : RoutineId} {answer : V}
    (hin : (m.routine c).inbox = .awaited r)
    (hc : ((m.close c).2.routine c).control ≠ .ended) (j : RoutineId) :
    ((m.close c).2.join i c answer).status j = m.status j ∧
      ((((m.close c).2.join i c answer).routine j).control = (m.routine j).control ∨ j = i) ∨
    Changes m ((m.close c).2.join i c answer) i j (m.status j)
      (((m.close c).2.join i c answer).status j) := by
  obtain ⟨rfl, hres⟩ := h.of_awaited hin
  have hri := h.tidy.ne_reader hi hin
  have hclosed := routine_close h.tidy hin
  have hr := routine_join (h.tidy.isActive_close hi hin) hc answer
  by_cases hjr : j = r
  · subst hjr
    refine .inr ?_
    obtain ⟨-, ⟨-, s, hf⟩ | ⟨hsusp, hread⟩⟩ := h.resumable hres
    · -- A body that never began would have ended at once.
      rw [hclosed] at hc
      simp [closed, hf, take] at hc
    · rw [hsusp, status, hr]
      simp only [joined, hclosed, closed, if_pos]
      refine .cancels hread ?_
      rw [hr]
      simp [joined, hclosed, closed, hri, hread, take]
  · refine .inl ⟨?_, ?_⟩
    · rw [status, hr]
      simp [joined, hclosed, closed, hjr, status]
    · by_cases hji : j = i
      · exact .inr hji
      · rw [hr]
        simp [joined, hclosed, closed, hjr, hji]

/-- A body that hands out waits then, and its listener hears of it. -/
theorem Orderly.status_yield {p : Parcel V} (hc : m.status i = .running) (hmain : i ≠ .main)
    (j : RoutineId) :
    (m.yield i i p).status j = m.status j ∧
      (((m.yield i i p).routine j).control = (m.routine j).control ∨
        ∃ d, (m.routine j).control = .listening d) ∨
    Changes m (m.yield i i p) i j (m.status j) ((m.yield i i p).status j) := by
  obtain ⟨l, hout⟩ := h.tidy.exists_listener hc hmain
  have hl := (h.tidy.listener i l).1 hout
  have hlc := h.tidy.ne_listener hi hout
  have hr := routine_yield h.tidy hi hc hout p
  generalize m.yield i i p = m' at hr
  by_cases hji : j = i
  · subst hji
    refine .inr ?_
    have hst : m'.status j = .suspending := by
      rw [status, hr]
      simp [handedOut]
    rw [hst, hc]
    refine .yields (p := p) rfl ?_ ⟨l, hl, ?_⟩ <;> rw [hr] <;> simp [handedOut, hlc]
  · refine .inl ⟨?_, ?_⟩
    · rw [status, hr]
      simp [handedOut, hji, status]
    · by_cases hjl : j = l
      · exact .inr ⟨i, hjl ▸ hl⟩
      · rw [hr]
        simp [handedOut, hji, hjl]

/-- What becomes of a routine in a transfer of routine `i`: its status changes, or it stays what it
is, only that `i` goes on and that a listener hears an output. -/
theorem Transfers.status (htr : m.Transfers i m')
    (hown : ∀ c, m.status c = .running →
      (c = i ∨ ∃ v next, (m.routine i).control = .running (.act (.yield c v) next)) → c = i)
    (j : RoutineId) :
    m'.status j = m.status j ∧ ((m'.routine j).control = (m.routine j).control ∨ j = i ∨
      ∃ d, (m.routine j).control = .listening d) ∨
    Changes m m' i j (m.status j) (m'.status j) := by
  have hlt := lt_of_isActive hi
  cases htr with
  | goes hd =>
    refine .inl ⟨?_, ?_⟩
    · rw [Machine.status, Machine.status, setControl, routine_update_ite hlt]
      split_ifs with hji <;> simp [hji]
    · by_cases hji : j = i
      · exact .inr (.inl hji)
      · rw [setControl, routine_update_ite hlt, if_neg hji]
        exact .inl rfl
  | @resumes c p hc hmain hst =>
    obtain ⟨-, hdoing⟩ := h.resumable hc
    refine (h.status_handOver hi (x := .parcel p) (a := .running) hc ?_ j).imp
      (.imp_right (.imp_right .inl)) id
    intro m' hl hc'
    rcases hdoing with ⟨hnew, s, hf⟩ | ⟨hsusp, hread⟩
    · rw [hnew]
      exact .begins hl hf (hc'.trans (by rw [hf]; rfl))
    · rw [hsusp]
      exact .resumes hl hread (hc'.trans (by rw [hread]; rfl))
  | @cancels c hc hmain hst =>
    have hres : (m.status c).isResumable = true := by rw [hc]; rfl
    obtain ⟨-, ⟨hnew, -⟩ | ⟨-, hread⟩⟩ := h.resumable hres
    · cases hnew.symm.trans hc
    · refine (h.status_handOver hi (x := .cancel) (a := .canceled) hres ?_ j).imp
        (.imp_right (.imp_right .inl)) id
      intro m' hl hc'
      rw [hc]
      exact .cancels hread (hc'.trans (by rw [hread]; rfl))
  | disposes answer hin hmain hc =>
    exact (h.status_dispose hi hin hc j).imp_left (.imp_right (.imp_right .inl))
  | @yields c p hc hmain hyield =>
    obtain rfl := hown c hc hyield
    exact (h.status_yield hi hc hmain j).imp_left (.imp_right (.imp_right .inr))

/-- What becomes of a routine when the body that routine `i` runs ends. -/
theorem Orderly.status_finish (hc : (m.routine i).control = .returning o)
    (hst : (m.routine i).stack = []) (j : RoutineId) :
    ((m.finish i o).status j = m.status j ∧
      ((m.routine j).control = .ended → ((m.finish i o).routine j).control = .ended)) ∨
    Changes m (m.finish i o) i j (m.status j) ((m.finish i o).status j) := by
  have hr := routine_finish h.tidy hi o
  generalize m.finish i o = m' at hr
  by_cases hji : j = i
  · subst hji
    have hended : (m'.routine j).control = .ended := by
      rw [hr]
      simp [finished]
    have hstatus : m'.status j = o.ending (m.status j) := by
      rw [Machine.status, hr]
      simp [finished]
    have hwork := h.working hi
    rw [← Machine.status] at hwork
    rw [hstatus]
    rcases hwork with hrun | hrun <;> rw [hrun]
    · cases o with
      | panic p => exact .inr (.panics rfl hc hst hended)
      | value a => exact .inr (.returns rfl hc hst (by simp) hended)
      | failure f => exact .inr (.returns rfl hc hst (by simp) hended)
    · cases o with
      | panic p => exact .inr (.unwinds rfl hc hst hended)
      | value a => exact .inl ⟨rfl, fun _ => hended⟩
      | failure f => exact .inl ⟨rfl, fun _ => hended⟩
  · refine .inl ⟨?_, fun hj => ?_⟩
    · rw [Machine.status, hr]
      simp [finished, hji, Machine.status]
    · have hlisten : (m.routine i).outbox.reader? ≠ some j := fun hl => by
        have hj' := (h.tidy.listener i j).1 (Slot.reader?_eq_some.1 hl)
        cases hj.symm.trans hj'
      rw [hr]
      simp [finished, hji, hlisten, hj, awoken]

end Transfers

/-- A routine that passes control has not ended. -/
theorem Transfers.ne_ended (h : m.Orderly) (hi : (m.routine i).control.isActive = true)
    (htr : m.Transfers i m') (hown : ∀ c, m.status c = .running →
      (c = i ∨ ∃ v next, (m.routine i).control = .running (.act (.yield c v) next)) → c = i) :
    (m'.routine i).control ≠ .ended := by
  have hlt := lt_of_isActive hi
  cases htr with
  | goes hd =>
    rw [setControl, routine_update_self hlt]
    exact ne_ended_of_isActive hd
  | resumes p hc hmain hst =>
    rw [routine_handOver h.tidy hi hc (h.resumable hc).1]
    simp [handedOver]
  | @cancels c hc hmain hst =>
    have hres : (m.status c).isResumable = true := by rw [hc]; rfl
    rw [routine_handOver h.tidy hi hres (h.resumable hres).1]
    simp [handedOver]
  | @disposes c r answer hin hmain hc =>
    rw [routine_join (h.tidy.isActive_close hi hin) hc]
    simp [joined]
  | yields p hc hmain hyield =>
    obtain rfl := hown _ hc hyield
    obtain ⟨l, hout⟩ := h.tidy.exists_listener hc hmain
    rw [routine_yield h.tidy hi hc hout]
    simp [handedOut]

/-- What becomes of a routine in a step of routine `i`: its status changes, or it has its status
and does not come back after its end. -/
theorem Passes.status (h : m.Orderly) (hi : (m.routine i).control.isActive = true)
    (hown : m.yieldsOwn = true) {ready : List RoutineId} (hready : m.ready = i :: ready)
    (hp : m.Passes R i m') (hj : j.val < m.routines.size) :
    (m'.status j = m.status j ∧
      ((m.routine j).control = .ended → (m'.routine j).control = .ended)) ∨
    Changes m m' i j (m.status j) (m'.status j) := by
  cases hp with
  | ends hc hst => exact h.status_finish hi hc hst j
  | @transfers m₁ _ ha htr =>
    have har := ha.arranged h hi
    have hi₁ : (m₁.routine i).control.isActive = true := har.own ▸ hi
    have hafter := htr.status har.orderly hi₁ (fun c => har.yields_own hown hready) j
    have hlisten := fun l => ha.listening (j := l) (d := j) h.tidy hi
    have hne := htr.ne_ended har.orderly hi₁ (fun c => har.yields_own hown hready)
    rcases har.kept j hj with ⟨hst, hcontrol⟩ | ⟨hres, hst, hcontrol⟩
    · rw [hst] at hafter
      rcases hafter with ⟨hsame, hdoing⟩ | hchange
      · refine .inl ⟨hsame, fun hended => ?_⟩
        rw [hcontrol, hended] at hdoing
        rcases hdoing with hdoing | rfl | ⟨d, hd⟩
        · exact hdoing
        · exact absurd hended (ne_ended_of_isActive hi)
        · cases hd
      · exact .inr (hchange.of_before hcontrol hlisten hne)
    · -- What was given up is not touched again.
      have htake := take_ne (m.routine j).control .cancel
      have hji : j ≠ i := by
        rintro rfl
        exact h.tidy.ne_reader hi (h.resumable hres).1 rfl
      rw [hst] at hafter
      obtain ⟨hsame, hdoing⟩ : m'.status j = .canceled ∧
          (m'.routine j).control = (m.routine j).control.take .cancel := by
        rcases hafter with ⟨hsame, hdoing | hji' | ⟨d, hd⟩⟩ | hchange
        · exact ⟨hsame, hdoing.trans hcontrol⟩
        · exact absurd hji' hji
        · exact absurd (hcontrol.symm.trans hd) (htake d).1
        · exact absurd hchange.eq_of_canceled.symm hji
      refine .inr ?_
      rw [hsame]
      obtain ⟨-, ⟨hnew, s, hf⟩ | ⟨hsusp, hread⟩⟩ := h.resumable hres
      · rw [hnew]
        exact .drops hf (by rw [hdoing, hf]; rfl)
      · rw [hsusp]
        exact .cancels hread (by rw [hdoing, hread]; rfl)

/-! ## Steps and runs -/

/-- Every step changes the status of a coroutine only in one of the known ways, and never wakes a
body that has ended. -/
theorem Orderly.step_status (h : m.Orderly) (hown : m.yieldsOwn = true)
    (hs : m.step code = some m') (hc : c.val < m.routines.size) :
    (m'.status c = m.status c ∨ ∃ i, m.ready.head? = some i ∧
      Changes m m' i c (m.status c) (m'.status c)) ∧
    ((m.routine c).control = .ended → (m'.routine c).control = .ended) := by
  obtain ⟨i, ready, hready, ⟨hi, hp, -⟩ | ⟨-, rfl⟩⟩ := h.tidy.step_cases hs
  · rcases hp.status h hi hown hready hc with ⟨hsame, hended⟩ | hchange
    · exact ⟨.inl hsame, hended⟩
    · exact ⟨.inr ⟨i, by rw [hready]; rfl, hchange⟩,
        fun hended => absurd hended (hchange.ne_ended hi)⟩
  · exact ⟨.inl rfl, id⟩

/-- The body of coroutine `c` is about to return. -/
def Returns (m : Machine P V σ) (c : RoutineId) : Prop :=
  m.ready.head? = some c ∧ (m.routine c).stack = [] ∧ ∃ o, (m.routine c).control = .returning o

/-- A body that returns has ended. -/
theorem Returns.ended (h : m.Orderly) (hret : m.Returns c) (hs : m.step code = some m') :
    (m'.routine c).control = .ended := by
  obtain ⟨hready, hst, o, hc⟩ := hret
  have hi : (m.routine c).control.isActive = true := by rw [hc]; rfl
  rw [← stepOf_eq_of_step hready hs, stepOf_ending hc hst, routine_finish h.tidy hi]
  simp [finished]

/-- What is final about coroutine `c` in `m` is so in `m'`. -/
structure Lasts (m m' : Machine P V σ) (c : RoutineId) : Prop where
  terminal : (m.status c).isTerminal = true → (m'.status c).isTerminal = true
  final : m.status c = .done ∨ m.status c = .panicked → m'.status c = m.status c
  ended : (m.routine c).control = .ended → (m'.routine c).control = .ended

theorem Lasts.trans (h : Lasts m m₁ c) (h' : Lasts m₁ m' c) : Lasts m m' c where
  terminal := h'.terminal ∘ h.terminal
  final hc := (h'.final (h.final hc ▸ hc)).trans (h.final hc)
  ended := h'.ended ∘ h.ended

theorem Orderly.lasts_step (h : m.Orderly) (hown : m.yieldsOwn = true)
    (hs : m.step code = some m') (hc : c.val < m.routines.size) : Lasts m m' c := by
  obtain ⟨hstatus, hended⟩ := h.step_status hown hs hc
  rcases hstatus with hsame | ⟨i, -, hchange⟩
  · exact ⟨fun ht => hsame ▸ ht, fun _ => hsame, hended⟩
  · refine ⟨hchange.isTerminal, fun hfinal => ?_, hended⟩
    rcases hfinal with hc | hc
    · exact absurd hc hchange.ne_final.1
    · exact absurd hc hchange.ne_final.2

/-- Machines in whose steps bodies hand out through themselves. -/
abbrev ReachesOwn (code : P → Entry V → Code P V σ V) : Machine P V σ → Machine P V σ → Prop :=
  ReachesUnder code fun m _ => m.yieldsOwn = true

theorem ReachesUnder.lasts (h : ReachesOwn code m m') (hm : m.Orderly) (hsound : m.Sound)
    (hc : c.val < m.routines.size) : Lasts m m' c := by
  induction h with
  | refl => exact ⟨id, fun _ => rfl, id⟩
  | @step m₁ _ _ hown hs _ ih =>
    exact (hm.lasts_step hown hs hc).trans
      (ih (hm.step hown hs) (hsound.step hs) (hc.trans_le (hsound.size_step hs)))
  | @turn m₁ _ _ ih =>
    have hlast : Lasts m₁ m₁.passTurn c := by
      constructor <;> simp only [status, routine_passTurn] <;> simp
    exact hlast.trans (ih hm.passTurn hsound.passTurn (by rwa [size_passTurn]))

/-! ## Operations that the status forbids -/

/-- Whatever code goes on with the outcome, operation `a` of routine `i` fails at once, and nothing
else happens. -/
def Refuses (code : P → Entry V → Code P V σ V) (m : Machine P V σ) (i : RoutineId) (a : Act P V)
    (f : Failure) : Prop :=
  ∀ next, (m.routine i).control = .running (.act a next) →
    (m.stepOf code i).stepOf code i = m.setControl i (.running (next (.failure f)))

/-- The same for an operation that registers: the entry is there for one step. -/
def RefusesOn (code : P → Entry V → Code P V σ V) (m : Machine P V σ) (i : RoutineId)
    (p : Place) (a : Act P V) (f : Failure) : Prop :=
  ∀ next, (m.routine i).control = .running (.act a next) →
    ∃ g : Registry RoutineId, g.items.Perm (m.registry p).items ∧
      ((m.stepOf code i).stepOf code i).stepOf code i =
        (m.setRegistry p g).setControl i (.running (next (.failure f)))

/-- Code goes on with the failure of its operation. -/
theorem stepOf_fail_next (hlt : i.val < m.routines.size) (next : Outcome V V → Code P V σ V)
    (f : Failure) : ((m.pushFrame i (.next next)).fail i f).stepOf code i =
      m.setControl i (.running (next (.failure f))) := by
  have hr : ((m.pushFrame i (.next next)).fail i f).routine i =
      { m.routine i with
        stack := .next next :: (m.routine i).stack, control := .returning (.failure f) } := by
    rw [fail, reply, setControl, pushFrame, update_update, routine_update_self hlt]
  rw [stepOf_next (by rw [hr]) (by rw [hr]), seen]
  unfold fail reply pushFrame setControl
  simp only [update_update]
  exact update_congr rfl

/-- An operation that begins with a failure is refused. -/
theorem Refuses.of_begin {a : Act P V} {f : Failure}
    (h : ∀ m' : Machine P V σ, m'.isCoroutine c = m.isCoroutine c → m'.status c = m.status c →
      m'.begin code i a = m'.fail i f) : m.Refuses code i a f := by
  intro next hcontrol
  rw [stepOf_act hcontrol, h _ (isCoroutine_pushFrame _) (status_pushFrame _),
    stepOf_fail_next (lt_of_ne_ended (by simp [hcontrol]))]

theorem setRegistry_setRegistry (p : Place) (g g' : Registry RoutineId) :
    (m.setRegistry p g).setRegistry p g' = m.setRegistry p g' := by
  cases p <;> simp [setRegistry]

/-- An entry that is added and withdrawn again leaves the entries that there were. -/
theorem exists_withdrawn (m : Machine P V σ) (p : Place) (c : RoutineId) :
    ∃ g : Registry RoutineId, g.items.Perm (m.registry p).items ∧
      (m.setRegistry p ((m.registry p).push c)).setRegistry p
        (((m.setRegistry p ((m.registry p).push c)).registry p).erase c) = m.setRegistry p g := by
  by_cases hp : m.hasPlace p
  · refine ⟨((m.registry p).push c).erase c, ?_, ?_⟩
    · have herase : ((m.registry p).items.reverse ++ [c]).erase c |>.Perm
          (m.registry p).items.reverse :=
        (List.Perm.erase c List.perm_append_comm).trans (by simp)
      simpa [Registry.erase] using ((List.reverse_perm _).trans herase).trans (List.reverse_perm _)
    · rw [registry_setRegistry hp, if_pos rfl, setRegistry_setRegistry]
  · exact ⟨m.registry p, .refl _, by simp [setRegistry_of_not_hasPlace hp]⟩

section Refusals

variable (hco : m.isCoroutine c = true)
include hco

theorem refuses_resume (hc : (m.status c).isResumable = false) (v : V) :
    m.Refuses code i (.resume c v) (.cannotResume (m.status c)) := by
  refine .of_begin (c := c) fun m' hco' hst => ?_
  simp [begin, onCoroutine, hco', hco, resume, hst, hc]

theorem refuses_cancel (hc : m.status c ≠ .suspending) (answer : V) :
    m.Refuses code i (.cancel c answer) (.cannotCancel (m.status c)) := by
  refine .of_begin (c := c) fun m' hco' hst => ?_
  simp only [begin, onCoroutine, hco', hco, if_pos, cancel, hst]

theorem refuses_yield (hc : m.status c ≠ .running) (v : V) :
    m.Refuses code i (.yield c v)
      (if m.status c = .canceled then .canceled else .cannotYield (m.status c)) := by
  refine .of_begin (c := c) fun m' hco' hst => ?_
  simp only [begin, onCoroutine, hco', hco, if_pos, yield, hst, releaseParcel]
  cases hstatus : m.status c <;> first | rfl | exact absurd hstatus hc

theorem refuses_resumeOn (hc : (m.status c).isResumable = false) (r : RegistryId) (v : V) :
    m.RefusesOn code i (.registry r) (.resumeOn r c v) (.cannotResume (m.status c)) := by
  intro next hcontrol
  have hlt : i.val < m.routines.size := lt_of_ne_ended (by simp [hcontrol])
  obtain ⟨g, hg, hregistry⟩ := exists_withdrawn m (.registry r) c
  refine ⟨g, hg, ?_⟩
  -- The resume fails below the frame that withdraws the entry, which the next step takes off.
  set m₁ := ((m.setRegistry (.registry r) ((m.registry (.registry r)).push c)).pushFrame i
    (.next next)).pushFrame i (.registered (.registry r) c) with hm₁
  have hfirst : m.stepOf code i = m₁.fail i (.cannotResume (m.status c)) := by
    have hst : m₁.status c = m.status c := by
      rw [hm₁, status_pushFrame, status_pushFrame, status, routine_setRegistry, status]
    have hbegin : (m.pushFrame i (.next next)).begin code i (.resumeOn r c v) =
        m₁.resume i c (.plain v) := by
      simp only [begin, onCoroutine, isCoroutine_pushFrame, hco, if_pos, resumeOn]
      rw [hm₁, pushFrame, pushFrame, pushFrame, registry_update, setRegistry_eq_update_comm]
      rfl
    rw [stepOf_act hcontrol, hbegin, resume, hst, hc]
    rfl
  have hsecond : (m₁.fail i (.cannotResume (m.status c))).stepOf code i =
      ((m.setRegistry (.registry r) g).pushFrame i (.next next)).fail i
        (.cannotResume (m.status c)) := by
    have hr : (m₁.fail i (.cannotResume (m.status c))).routine i =
        { m.routine i with
          stack := .registered (.registry r) c :: .next next :: (m.routine i).stack
          control := .returning (.failure (.cannotResume (m.status c))) } := by
      rw [hm₁, fail, reply, setControl, pushFrame, pushFrame, update_update, update_update,
        routine_update_self (by simpa using hlt), routine_setRegistry]
    rw [stepOf_returning (by rw [hr]) (by rw [hr]), unwind, ← hregistry]
    unfold fail reply pushFrame setControl
    simp only [hm₁, pushFrame, update_update, registry_update, setRegistry_eq_update_comm]
    exact update_congr (by simp)
  rw [hfirst, hsecond, stepOf_fail_next (by simpa using hlt)]

end Refusals

/-- What the status of a coroutine allows and forbids. -/
structure StatusRules (code : P → Entry V → Code P V σ V) (m : Machine P V σ) : Prop where
  /-- A step changes a status only in one of the known ways. -/
  changes : ∀ m' c, m.yieldsOwn = true → m.step code = some m' → c.val < m.routines.size →
    m'.status c = m.status c ∨
      ∃ i, m.ready.head? = some i ∧ Changes m m' i c (m.status c) (m'.status c)
  /-- What is final stays final. -/
  lasts : ∀ m' c, ReachesOwn code m m' → c.val < m.routines.size → Lasts m m' c
  /-- No body returns a second time. -/
  once : ∀ m₁ m' c, m.Returns c → m.yieldsOwn = true → m.step code = some m₁ →
    ReachesOwn code m₁ m' → ¬ m'.Returns c
  resume : ∀ i c v, m.isCoroutine c = true → m.status c ≠ .notRunning → m.status c ≠ .suspending →
    m.Refuses code i (.resume c v) (.cannotResume (m.status c))
  resumeOn : ∀ i r c v, m.isCoroutine c = true → m.status c ≠ .notRunning →
    m.status c ≠ .suspending →
    m.RefusesOn code i (.registry r) (.resumeOn r c v) (.cannotResume (m.status c))
  cancel : ∀ i c answer, m.isCoroutine c = true → m.status c ≠ .suspending →
    m.Refuses code i (.cancel c answer) (.cannotCancel (m.status c))
  yield : ∀ i c v, m.isCoroutine c = true → m.status c ≠ .running →
    m.Refuses code i (.yield c v)
      (if m.status c = .canceled then .canceled else .cannotYield (m.status c))

/-- The status of every coroutine follows the rules, in every run in which bodies hand out through
themselves. -/
theorem ReachesUnder.statusRules {store : σ} {c₀ : Code P V σ V}
    (h : ReachesOwn code (initial store c₀) m) : m.StatusRules code := by
  have hm : m.Orderly := h.orderly (fun _ _ => id) (orderly_initial store c₀)
  have hsound : m.Sound := h.reaches.sound
  have hresumable : ∀ s : Status, s ≠ .notRunning → s ≠ .suspending → s.isResumable = false := by
    intro s h₁ h₂
    cases s <;> first | rfl | contradiction
  constructor
  case changes => exact fun m' c hown hs hc => (hm.step_status hown hs hc).1
  case lasts => exact fun m' c hreach hc => hreach.lasts hm hsound hc
  case once =>
    intro m₁ m' c hret hown hs hreach hret'
    obtain ⟨-, -, o, hc⟩ := hret'
    have hlt : c.val < m.routines.size := by
      obtain ⟨-, -, o, ho⟩ := hret
      exact lt_of_ne_ended (by simp [ho])
    have hlast := hreach.lasts (hm.step hown hs) (hsound.step hs) (hlt.trans_le (hsound.size_step hs))
    cases (hlast.ended (hret.ended hm hs)).symm.trans hc
  case resume =>
    exact fun i c v hco h₁ h₂ => refuses_resume hco (hresumable _ h₁ h₂) v
  case resumeOn =>
    exact fun i r c v hco h₁ h₂ => refuses_resumeOn hco (hresumable _ h₁ h₂) r v
  case cancel => exact fun i c answer hco hc => refuses_cancel hco hc answer
  case yield => exact fun i c v hco hc => refuses_yield hco hc v

/-! A body that hands out once, resumed twice. -/

/-- Hands out its first input, and returns the second. -/
def handsOutOnce : Unit → Entry Nat → Code Unit Nat Unit Nat
  | _, .start v self => .perform (.yield self v)
  | _, _ => .pure 0

/-- Makes a coroutine and resumes it twice. -/
def resumesTwice : Code Unit Nat Unit Nat :=
  .ask (.spawn .standard ()) fun c =>
    .act (.resume c 1) fun _ => .perform (.resume c 2)

theorem statusRules_resumesTwice :
    ∃ m m', ReachesOwn handsOutOnce (initial () resumesTwice) m ∧ m.status ⟨1⟩ = .suspending ∧
      ReachesOwn handsOutOnce m m' ∧ m'.status ⟨1⟩ = .done ∧ m'.StatusRules handsOutOnce := by
  have hrule : ∀ m m' : Machine Unit Nat Unit, m.yieldsOwn = true → m.yieldsOwn = true :=
    fun _ _ => id
  refine ⟨_, _, .of_runUnder 5 hrule rfl, rfl, .of_runUnder 5 hrule rfl, rfl, ?_⟩
  have hreach : ReachesOwn handsOutOnce (initial () resumesTwice) _ := .of_runUnder 10 hrule rfl
  exact hreach.statusRules

end Machine

end OneShot
