import Mathlib.Data.List.Chain
import OneShot.Proofs.StatusChanges

/-!
# What a routine hears that listens

A routine that listens to a coroutine waits until the coroutine hands something out or ends, and hears
of nothing else: `Orderly.listening_step`. So in a chain of routines, each of which listens to the one
before it, only the routine at the head can make a step that the others notice, and then only the
next one notices it: `Orderly.chain_step`.
-/

namespace OneShot

variable {P V σ : Type}

namespace Machine

open Control

variable {code : P → Entry V → Code P V σ V} {m m₁ m' m'' : Machine P V σ} {i j c x : RoutineId}
  {R : RegistryId → Prop} {line : List RoutineId}

/-- A step of coroutine `c` gives the routine `j` that listens to it something to go on with. -/
inductive Tells (m m' : Machine P V σ) (c j : RoutineId) : Prop where
  /-- The body hands something out, and can be resumed again. -/
  | output (p : Parcel V) (reading : (m'.routine c).control = .reading c)
    (suspending : m'.status c = .suspending)
    (told : (m'.routine j).control = .returning (.value p))
  /-- The body ends, and the listener has its outcome. -/
  | ending (o : Outcome V (Parcel V)) (returning : (m.routine c).control = .returning o)
    (nil : (m.routine c).stack = []) (ended : (m'.routine c).control = .ended)
    (status : m'.status c = o.ending (m.status c))
    (told : (m'.routine j).control = .returning o)

/-- Routine `j` is in both machines in the same place, with the same calls below it. -/
structure Unmoved (m m' : Machine P V σ) (j : RoutineId) : Prop where
  control : (m'.routine j).control = (m.routine j).control
  stack : (m'.routine j).stack = (m.routine j).stack
  status : m'.status j = m.status j

theorem Unmoved.refl (m : Machine P V σ) (j : RoutineId) : m.Unmoved m j := ⟨rfl, rfl, rfl⟩

theorem Unmoved.trans (h : m.Unmoved m' j) (h' : m'.Unmoved m'' j) : m.Unmoved m'' j :=
  ⟨h'.control.trans h.control, h'.stack.trans h.stack, h'.status.trans h.status⟩

theorem Unmoved.of_routine (h : m'.routine j = m.routine j) : m.Unmoved m' j :=
  ⟨by rw [h], by rw [h], by rw [Machine.status, Machine.status, h]⟩

/-! ## One listener -/

section Parts

variable (h : m.Orderly) (hi : (m.routine i).control.isActive = true)
  (hj : (m.routine j).control = .listening c)
include h hi hj

/-- The end of a body is heard by whoever listens to it. -/
theorem Orderly.listening_finish {o : Outcome V (Parcel V)}
    (hc : (m.routine i).control = .returning o) (hst : (m.routine i).stack = []) :
    ((m.finish i o).routine j).stack = (m.routine j).stack ∧
      (m.finish i o).status j = m.status j ∧
      (i ≠ c ∧ ((m.finish i o).routine j).control = .listening c ∨
        i = c ∧ m.Tells (m.finish i o) c j) := by
  have hji : j ≠ i := by
    rintro rfl
    exact ne_listening_of_isActive hi c hj
  have hr := routine_finish h.tidy hi o
  generalize m.finish i o = m' at hr
  refine ⟨by rw [hr]; rfl, by rw [status, hr]; simp [finished, hji, status], ?_⟩
  by_cases hlistener : (m.routine i).outbox.reader? = some j
  · -- A routine listens to one coroutine only.
    have hlistens := (h.tidy.listener i j).1 (Slot.reader?_eq_some.1 hlistener)
    obtain rfl : c = i := Control.listening.inj (hj.symm.trans hlistens)
    refine .inr ⟨rfl, .ending o hc hst ?_ ?_ ?_⟩
    · simp [hr, finished]
    · simp [status, hr, finished]
    · simp [hr, finished, hji, hlistener]
  · refine .inl ⟨?_, ?_⟩
    · rintro rfl
      exact hlistener (Slot.reader?_eq_some.2 ((h.tidy.listener i j).2 hj))
    · rw [hr]
      simp [finished, hji, hlistener, hj, awoken]

/-- What a routine that passes control tells a listener. -/
theorem Transfers.listening_stays (htr : m.Transfers i m')
    (hown : ∀ c, m.status c = .running →
      (c = i ∨ ∃ v next, (m.routine i).control = .running (.act (.yield c v) next)) → c = i) :
    m'.status j = m.status j ∧
      ((m'.routine j).control = .listening c ∨ i = c ∧ ∃ p, (m'.routine c).control = .reading c ∧
        m'.status c = .suspending ∧ (m'.routine j).control = .returning (.value p)) := by
  have hji : j ≠ i := by
    rintro rfl
    exact ne_listening_of_isActive hi c hj
  -- Whoever listens does not wait for an input, so no input is for it.
  have hreader : ∀ d r, (m.routine d).inbox = .awaited r → j ≠ r := by
    rintro d r hin rfl
    exact (h.tidy.of_reader hin).1 c hj
  have hbusy : ∀ d, (m.status d).isResumable = true → j ≠ d := by
    rintro d hd rfl
    obtain ⟨-, ⟨-, s, hf⟩ | ⟨-, hr⟩⟩ := h.resumable hd
    · cases hf.symm.trans hj
    · cases hr.symm.trans hj
  have hover : ∀ {d : RoutineId} {s : Status} {y : Input V}, (m.status d).isResumable = true →
      (m.handOver i d s y).status j = m.status j ∧
        ((m.handOver i d s y).routine j).control = .listening c := by
    intro d s y hd
    obtain ⟨r, hin⟩ := h.tidy.exists_reader hd
    rw [Machine.status, routine_handOver h.tidy hi hd hin]
    simp [handedOver, hji, hreader d r hin, hbusy d hd, hj, Machine.status]
  cases htr with
  | goes hd =>
    rw [Machine.status, setControl, routine_update_of_ne hji.symm]
    exact ⟨rfl, .inl hj⟩
  | resumes p hd hmain hst => exact ⟨(hover hd).1, .inl (hover hd).2⟩
  | @cancels d hd hmain hst =>
    have hres : (m.status d).isResumable = true := by rw [hd]; rfl
    exact ⟨(hover hres).1, .inl (hover hres).2⟩
  | @disposes d r answer hin hmain hd =>
    obtain ⟨rfl, hres⟩ := h.of_awaited hin
    have hr : ((m.close r).2.join i r answer).routine j = _ :=
      routine_join (h.tidy.isActive_close hi hin) hd answer j
    rw [Machine.status, hr]
    simp [joined, routine_close h.tidy hin, closed, hji, hbusy r hres, hj, Machine.status]
  | @yields d p hd hmain hyield =>
    obtain rfl := hown d hd hyield
    obtain ⟨l, hout⟩ := h.tidy.exists_listener hd hmain
    have hr := routine_yield h.tidy hi hd hout p
    generalize m.yield d d p = m' at hr
    refine ⟨by rw [Machine.status, hr]; simp [handedOut, hji, Machine.status], ?_⟩
    by_cases hjl : j = l
    · subst hjl
      obtain rfl : c = d := Control.listening.inj (hj.symm.trans ((h.tidy.listener d j).1 hout))
      refine .inr ⟨rfl, p, ?_, ?_, ?_⟩
      · simp [hr, handedOut]
      · simp [Machine.status, hr, handedOut]
      · simp [hr, handedOut, hji]
    · left
      rw [hr]
      simp [handedOut, hji, hjl, hj]

end Parts

/-- A routine that listens to a coroutine goes on listening until the coroutine tells it something. -/
theorem Orderly.listening_step (h : m.Orderly) (hown : m.yieldsOwn = true)
    (hs : m.step code = some m') (hlt : j.val < m.routines.size)
    (hj : (m.routine j).control = .listening c) :
    m.Unmoved m' j ∨ (m'.routine j).stack = (m.routine j).stack ∧ m'.status j = m.status j ∧
      m.ready.head? = some c ∧ (m.routine c).control.isActive = true ∧ m.Tells m' c j := by
  obtain ⟨i, ready, hready, ⟨hi, hp, -⟩ | ⟨-, rfl⟩⟩ := h.tidy.step_cases hs
  case inr => exact .inl (.of_routine (routine_pause m i j))
  have hji : j ≠ i := by
    rintro rfl
    exact ne_listening_of_isActive hi c hj
  have hhead : m.ready.head? = some i := by rw [hready]; rfl
  cases hp with
  | @ends o hc hst =>
    obtain ⟨hstack, hstatus, ⟨-, hstill⟩ | ⟨rfl, htells⟩⟩ := h.listening_finish hi hj hc hst
    · exact .inl ⟨hstill.trans hj.symm, hstack, hstatus⟩
    · exact .inr ⟨hstack, hstatus, hhead, hi, htells⟩
  | @transfers m₁ _ ha htr =>
    have har := ha.arranged h hi
    have hi₁ : (m₁.routine i).control.isActive = true := har.own ▸ hi
    -- Nobody gives up a routine that waits for another one.
    obtain ⟨hstatus₁, hj₁⟩ : m₁.status j = m.status j ∧
        (m₁.routine j).control = .listening c := by
      rcases har.kept j hlt with ⟨hst, hcontrol⟩ | ⟨hres, -, -⟩
      · exact ⟨hst, hcontrol.trans hj⟩
      · obtain ⟨-, ⟨-, s, hf⟩ | ⟨-, hr⟩⟩ := h.resumable hres
        · cases hf.symm.trans hj
        · cases hr.symm.trans hj
    have hstack : (m'.routine j).stack = (m.routine j).stack :=
      (htr.stack har.orderly.tidy hi₁ j).trans (ha.stack hji)
    obtain ⟨hstatus, hstill | ⟨rfl, p, hreading, hsuspending, htold⟩⟩ :=
      htr.listening_stays har.orderly hi₁ hj₁ fun d => har.yields_own hown hready
    · exact .inl ⟨hstill.trans hj.symm, hstack, hstatus.trans hstatus₁⟩
    · exact .inr ⟨hstack, hstatus.trans hstatus₁, hhead, hi, .output p hreading hsuspending htold⟩

/-! ## A chain of listeners -/

/-- Each routine of the list listens to the one before it. -/
def Chained (m : Machine P V σ) (line : List RoutineId) : Prop :=
  line.IsChain fun c j => (m.routine j).control = .listening c

/-- A step that leaves the first routine of a chain on its way concerns none of those that listen. -/
theorem Orderly.chain_step (h : m.Orderly) (hown : m.yieldsOwn = true)
    (hs : m.step code = some m') (hchain : m.Chained (x :: line))
    (hx : m.ready.head? = some x → (m'.routine x).control.isActive = true) :
    m'.Chained (x :: line) ∧ ∀ j ∈ line, m.Unmoved m' j := by
  induction line generalizing x with
  | nil => exact ⟨.singleton x, by simp⟩
  | cons y line ih =>
    obtain ⟨hy, hrest⟩ := List.isChain_cons_cons.1 hchain
    have hsame : m.Unmoved m' y := by
      rcases h.listening_step hown hs (lt_of_ne_ended (by simp [hy])) hy with
        hsame | ⟨-, -, hhead, -, htells⟩
      · exact hsame
      · -- What tells something does not go on.
        have hactive := hx hhead
        cases htells with
        | output p hreading =>
          rw [hreading] at hactive
          cases hactive
        | ending o _ _ hended =>
          rw [hended] at hactive
          cases hactive
    -- A routine that listens makes no step that tells the next one something.
    have hpause : m.ready.head? = some y → (m'.routine y).control.isActive = true ∨
        ∀ j, m.Unmoved m' j := by
      intro hhead
      obtain ⟨i, ready, hready, ⟨hi, -, -⟩ | ⟨-, rfl⟩⟩ := h.tidy.step_cases hs
      · rw [hready] at hhead
        obtain rfl : i = y := Option.some.inj hhead
        exact absurd hy (ne_listening_of_isActive hi x)
      · exact .inr fun j => .of_routine (routine_pause m i j)
    by_cases hall : ∀ j, m.Unmoved m' j
    · refine ⟨hchain.imp fun a b hb => (hall b).control.trans hb, fun j _ => hall j⟩
    · obtain ⟨hchain', hunmoved⟩ := ih hrest fun hhead => (hpause hhead).resolve_right hall
      refine ⟨List.isChain_cons_cons.2 ⟨hsame.control.trans hy, hchain'⟩, fun j hj => ?_⟩
      rcases List.mem_cons.1 hj with rfl | hj
      · exact hsame
      · exact hunmoved j hj

end Machine

end OneShot
