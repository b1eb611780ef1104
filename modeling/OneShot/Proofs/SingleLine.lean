import Mathlib.Data.List.Chain
import Mathlib.Logic.Relation
import OneShot.Proofs.StatusChanges

/-!
# The single line of control

As long as bodies hand out through themselves and whoever drops a suspended body waits for its end
(`waitsForDropped`), the routines that have begun and wait for nothing they handed out form a line:
the main line at one end, the routine that goes on at the other, and each one blocked until the next
comes back. `Line` is the invariant. A transfer of control puts a routine at the front of the line or
takes one off (`Line.push`, `Line.pop`).

`ReachesUnder.lineOfControl` reads off what the line says about each status, that nobody in it can be
resumed or canceled, and that no routines wait for each other.
-/

namespace OneShot

variable {P V σ : Type}

/-- The coroutine for whose output or end a routine waits. -/
def Control.waitsFor? : Control P V σ → Option RoutineId
  | .listening c => some c
  | .joining c _ => some c
  | _ => none

/-- What a routine was doing and what it does now are the same for the line. -/
def Control.Similar (c d : Control P V σ) : Prop :=
  d.waitsFor? = c.waitsFor? ∧ d.isActive = c.isActive

theorem Control.Similar.trans {c d e : Control P V σ} (h : c.Similar d) (h' : d.Similar e) :
    c.Similar e :=
  ⟨h'.1.trans h.1, h'.2.trans h.2⟩

theorem Control.waitsFor?_of_isActive {c : Control P V σ} (h : c.isActive = true) :
    c.waitsFor? = none := by
  cases c <;> first | rfl | cases h

theorem Control.Similar.of_isActive {c d : Control P V σ} (hc : c.isActive = true)
    (hd : d.isActive = true) : c.Similar d :=
  ⟨(waitsFor?_of_isActive hd).trans (waitsFor?_of_isActive hc).symm, hd.trans hc.symm⟩

namespace Machine

open Control

variable {code : P → Entry V → Code P V σ V} {m m₁ m₂ m' : Machine P V σ} {i j s c r l : RoutineId}
  {x : Input V} {o : Outcome V (Parcel V)} {R : RegistryId → Prop} {line rest : List RoutineId}

/-- Routine `i` is blocked in a resume, a cancellation or a disposal of coroutine `c`. -/
def Awaits (m : Machine P V σ) (i c : RoutineId) : Prop :=
  (m.routine i).control.waitsFor? = some c

instance (m : Machine P V σ) (i c : RoutineId) : Decidable (m.Awaits i c) :=
  inferInstanceAs (Decidable (_ = _))

/-- In a step from `m` to `m'`, who drops a suspended body waits for it. -/
def waitsForDropped (m m' : Machine P V σ) : Bool :=
  (List.range m.routines.size).all fun n =>
    m.status ⟨n⟩ != .suspending || m'.status ⟨n⟩ != .canceled ||
      m.ready.head?.any fun i => m'.Awaits i ⟨n⟩

theorem awaits_of_dropped (h : m.waitsForDropped m' = true) (hready : m.ready = i :: rest)
    (hc : m.status c = .suspending) (hc' : m'.status c = .canceled) : m'.Awaits i c := by
  have hlt : c.val < m.routines.size := by
    by_contra hge
    rw [status, routine_of_size_le (Nat.le_of_not_lt hge)] at hc
    cases hc
  have hall := List.all_eq_true.1 h c.val (List.mem_range.2 hlt)
  simpa [hc, hc', hready] using hall

/-- The line of those who wait, who goes on first: each routine waits for the one before it, and the
main line stands last. Nobody goes on when the main line has ended. -/
structure Line (m : Machine P V σ) (line : List RoutineId) : Prop where
  main : line.getLast? = some .main
  nodup : line.Nodup
  waits : line.IsChain fun c i => m.Awaits i c
  head : ∀ i, line.head? = some i →
    (m.routine i).control.isActive = true ∨ i = .main ∧ (m.routine i).control = .ended
  active : ∀ i, (m.routine i).control.isActive = true → line.head? = some i
  waiting : ∀ i c, m.Awaits i c → i ∈ line

theorem not_awaits_of_isActive (hi : (m.routine i).control.isActive = true) :
    ¬ m.Awaits i c := by
  simp [Awaits, waitsFor?_of_isActive hi]

namespace Line

/-- A routine that waits stands right after the one for which it waits. -/
theorem exists_append (h : m.Line line) (hw : m.Awaits i c) :
    ∃ front back, line = front ++ c :: i :: back := by
  obtain ⟨front, back, hline⟩ := List.append_of_mem (h.waiting i c hw)
  have hne : front ≠ [] := by
    rintro rfl
    rcases h.head i (by rw [hline]; rfl) with hi | ⟨-, hi⟩
    · exact not_awaits_of_isActive hi hw
    · simp [Awaits, hi, waitsFor?] at hw
  obtain ⟨front, d, rfl⟩ := (List.eq_nil_or_concat' front).resolve_left hne
  have hchain := h.waits
  rw [hline, List.append_assoc, List.singleton_append, List.isChain_append_cons_cons] at hchain
  obtain rfl : d = c := Option.some.inj (hchain.2.1.symm.trans hw)
  exact ⟨front, back, by simp [hline]⟩

theorem idxOf_eq (h : m.Line line) (hw : m.Awaits i c) :
    line.idxOf i = line.idxOf c + 1 := by
  obtain ⟨front, back, hline⟩ := h.exists_append hw
  have hnodup := h.nodup
  rw [hline] at hnodup ⊢
  obtain ⟨hc, hi, hci⟩ : c ∉ front ∧ i ∉ front ∧ c ≠ i := by
    simp only [List.nodup_append, List.nodup_cons, List.mem_cons] at hnodup
    grind
  simp [List.idxOf_append, hc, hi, hci, Nat.add_comm]

/-- Only one routine waits for a coroutine. -/
theorem awaits_unique (h : m.Line line) (hi : m.Awaits i c) (hj : m.Awaits j c) : i = j :=
  (List.idxOf_inj (h.waiting i c hi)).1 ((h.idxOf_eq hi).trans (h.idxOf_eq hj).symm)

/-- A routine in the line goes on, or waits for the one before it. -/
theorem head_or_awaits (h : m.Line line) (hj : j ∈ line) :
    line.head? = some j ∨ ∃ c ∈ line, m.Awaits j c := by
  obtain ⟨front, back, hline⟩ := List.append_of_mem hj
  rcases List.eq_nil_or_concat' front with rfl | ⟨front, c, rfl⟩
  · exact .inl (by rw [hline]; rfl)
  · have hchain := h.waits
    rw [hline, List.append_assoc, List.singleton_append, List.isChain_append_cons_cons] at hchain
    exact .inr ⟨c, by simp [hline], hchain.2.1⟩

/-- A routine that goes on stands at the front. -/
theorem eq_cons (h : m.Line line) (hi : (m.routine i).control.isActive = true) :
    ∃ back, line = i :: back := List.head?_eq_some_iff.1 (h.active i hi)

/-- Somebody waits for each coroutine in the line. -/
theorem exists_awaits (h : m.Line line) (hc : c ∈ line) (hmain : c ≠ .main) :
    ∃ l, m.Awaits l c := by
  obtain ⟨front, back, rfl⟩ := List.append_of_mem hc
  cases back with
  | nil => exact absurd (Option.some.inj (by simpa using h.main)) hmain
  | cons l back => exact ⟨l, (List.isChain_append_cons_cons.1 h.waits).2.1⟩

/-- A coroutine that neither goes on nor waits is not in the line. -/
theorem notMem (h : m.Line line) (hi : (m.routine i).control.isActive = true)
    (hc : (m.routine c).control.waitsFor? = none) (hc' : (m.routine c).control.isActive = false) :
    c ∉ line := by
  intro hmem
  rcases h.head_or_awaits hmem with hhead | ⟨d, -, hd⟩
  · obtain rfl : i = c := Option.some.inj ((h.active i hi).symm.trans hhead)
    rw [hi] at hc'
    cases hc'
  · cases hc.symm.trans hd

/-- The line stays as it is while a routine that goes on minds its own business. -/
theorem similar (h : m.Line line) (hi : (m.routine i).control.isActive = true)
    (hs : ∀ j, Similar (m.routine j).control (m'.routine j).control) : m'.Line line where
  main := h.main
  nodup := h.nodup
  waits := h.waits.imp fun c j hj => (hs j).1.trans hj
  head j hj := by
    obtain rfl : i = j := Option.some.inj ((h.active i hi).symm.trans hj)
    exact .inl ((hs i).2.trans hi)
  active j hj := h.active j ((hs j).2 ▸ hj)
  waiting j c hj := h.waiting j c ((hs j).1.symm.trans hj)

/-- Routine `i` hands control to a coroutine, and waits for it. -/
theorem push (h : m.Line line) (hi : (m.routine i).control.isActive = true)
    (hc : (m.routine c).control.waitsFor? = none) (hc' : (m.routine c).control.isActive = false)
    (hwait : m'.Awaits i c) (hgoes : (m'.routine c).control.isActive = true)
    (hs : ∀ j, j ≠ i → j ≠ c → Similar (m.routine j).control (m'.routine j).control) :
    m'.Line (c :: line) := by
  have hnot := h.notMem hi hc hc'
  obtain ⟨back, hline⟩ := h.eq_cons hi
  have hne : c ≠ i := by
    rintro rfl
    rw [hi] at hc'
    cases hc'
  constructor
  case main => simpa [hline, List.getLast?_cons_cons] using h.main
  case nodup => exact List.nodup_cons.2 ⟨hnot, h.nodup⟩
  case waits =>
    have hold : line.IsChain fun c j => m'.Awaits j c := by
      refine h.waits.imp fun d j hj => ?_
      have hji : j ≠ i := fun heq => not_awaits_of_isActive hi (heq ▸ hj)
      have hjc : j ≠ c := by
        rintro rfl
        cases hc.symm.trans hj
      exact (hs j hji hjc).1.trans hj
    rw [hline] at hold ⊢
    exact List.isChain_cons_cons.2 ⟨hwait, hold⟩
  case head =>
    rintro j hj
    obtain rfl : c = j := Option.some.inj hj
    exact .inl hgoes
  case active =>
    intro j hj
    by_cases hjc : j = c
    · rw [hjc]
      rfl
    · by_cases hji : j = i
      · exact absurd hwait (hji ▸ not_awaits_of_isActive hj)
      · obtain rfl : i = j :=
          Option.some.inj ((h.active i hi).symm.trans (h.active j ((hs j hji hjc).2 ▸ hj)))
        exact absurd rfl hji
  case waiting =>
    intro j d hj
    by_cases hjc : j = c
    · simp [hjc]
    · by_cases hji : j = i
      · simp [hji, hline]
      · exact List.mem_cons_of_mem _ (h.waiting j d ((hs j hji hjc).1.symm.trans hj))

/-- Routine `i` stops, and control comes back to the one who waited for it. -/
theorem pop (h : m.Line line) (hi : (m.routine i).control.isActive = true) (hl : m.Awaits l i)
    (hstops : (m'.routine i).control.waitsFor? = none)
    (hstops' : (m'.routine i).control.isActive = false)
    (hgoes : (m'.routine l).control.isActive = true)
    (hs : ∀ j, j ≠ i → j ≠ l → Similar (m.routine j).control (m'.routine j).control) :
    m'.Line line.tail := by
  obtain ⟨back, rfl⟩ : ∃ back, line = i :: l :: back := by
    obtain ⟨front, back, hline⟩ := h.exists_append hl
    obtain ⟨back', hline'⟩ := h.eq_cons hi
    cases front with
    | nil => exact ⟨back, hline⟩
    | cons d front =>
      have hnodup := h.nodup
      rw [hline] at hnodup
      obtain rfl : d = i := (List.cons.inj (hline.symm.trans hline')).1
      simp at hnodup
  obtain ⟨hi_not, hnodup⟩ := List.nodup_cons.1 h.nodup
  have hchain := (List.isChain_cons_cons.1 h.waits).2
  constructor
  case main => simpa [List.getLast?_cons_cons] using h.main
  case nodup => exact hnodup
  case waits =>
    refine hchain.imp_of_mem_imp fun d j hd hj hw => ?_
    have hji : j ≠ i := fun heq => hi_not (heq ▸ hj)
    have hjl : j ≠ l := by
      rintro rfl
      obtain rfl : i = d := Option.some.inj (hl.symm.trans hw)
      exact hi_not hd
    exact (hs j hji hjl).1.trans hw
  case head =>
    intro j hj
    obtain rfl : l = j := Option.some.inj hj
    exact .inl hgoes
  case active =>
    intro j hj
    by_cases hjl : j = l
    · rw [hjl]
      rfl
    · by_cases hji : j = i
      · rw [hji, hstops'] at hj
        cases hj
      · obtain rfl : i = j := Option.some.inj (h.active j ((hs j hji hjl).2 ▸ hj))
        exact absurd rfl hji
  case waiting =>
    intro j d hj
    by_cases hji : j = i
    · subst hji
      cases hstops.symm.trans hj
    · by_cases hjl : j = l
      · simp [hjl]
      · have hmem := h.waiting j d ((hs j hji hjl).1.symm.trans hj)
        simpa [hji] using hmem

/-- The main line ends. -/
theorem atEnd (h : m.Line line) (hi : (m.routine .main).control.isActive = true)
    (hended : (m'.routine .main).control = .ended)
    (hs : ∀ j, j ≠ .main → Similar (m.routine j).control (m'.routine j).control) :
    m'.Line line := by
  obtain ⟨back, hline⟩ := h.eq_cons hi
  obtain rfl : back = [] := by
    by_contra hne
    have hlast : back.getLast? = some .main := by
      have hmain := h.main
      rwa [hline, List.getLast?_cons_of_ne_nil hne] at hmain
    have hnodup := h.nodup
    rw [hline] at hnodup
    exact (List.nodup_cons.1 hnodup).1 (List.mem_of_getLast? hlast)
  subst hline
  constructor
  case main => rfl
  case nodup => exact h.nodup
  case waits => exact .singleton _
  case head =>
    intro j hj
    obtain rfl : RoutineId.main = j := Option.some.inj hj
    exact .inr ⟨rfl, hended⟩
  case active =>
    intro j hj
    by_cases hjm : j = .main
    · rw [hjm]
      rfl
    · exact h.active j ((hs j hjm).2 ▸ hj)
  case waiting =>
    intro j c hj
    by_cases hjm : j = .main
    · simp [hjm]
    · exact h.waiting j c ((hs j hjm).1.symm.trans hj)

end Line

/-! ## Steps keep the line -/

/-- Arrangements that drop no suspended body do not concern the line. -/
theorem Arranges.similar (ha : Arranges R i m m₁) (h : m.Orderly)
    (hi : (m.routine i).control.isActive = true) (j : RoutineId) :
    Similar (m.routine j).control (m₁.routine j).control ∨
      m.status j = .suspending ∧ m₁.status j = .canceled := by
  induction ha with
  | refl => exact .inl ⟨rfl, rfl⟩
  | inward _ hq _ ih => simpa only [status, hq.control, hq.status] using ih
  | @grows m₁ ha x hx ih =>
    by_cases hj : j = m₁.next
    · have hnone : m₁.routine j = .absent := hj ▸ routine_next m₁
      have hst : m₁.status j ≠ .canceled := by
        rw [status, hnone]
        simp [Routine.absent]
      refine .inl ((ih.resolve_right fun hdrop => hst hdrop.2).trans ?_)
      rw [hnone, routine_grow, if_pos hj]
      rcases hx with rfl | ⟨config, start, scope, rfl⟩ <;> exact ⟨rfl, rfl⟩
    · simpa only [status, routine_grow, if_neg hj] using ih
  | @closes m₁ ha c ih =>
    have har := ha.arranged h hi
    by_cases hin : ∀ r, (m₁.routine c).inbox ≠ .awaited r
    · rw [close_eq har.orderly.tidy hin]
      exact ih
    · obtain ⟨r, hin⟩ : ∃ r, (m₁.routine c).inbox = .awaited r := by simpa using hin
      obtain ⟨rfl, hc⟩ := har.orderly.of_awaited hin
      have hr := routine_close har.orderly.tidy hin
      by_cases hjr : j = r
      · subst hjr
        obtain ⟨-, ⟨-, s, hf⟩ | ⟨hsusp, -⟩⟩ := har.orderly.resumable hc
        · have hst : m₁.status j ≠ .canceled := fun hst => by
            rw [hst] at hc
            cases hc
          refine .inl ((ih.resolve_right fun hdrop => hst hdrop.2).trans ?_)
          rw [hr]
          simp only [closed, if_pos, hf, take]
          exact ⟨rfl, rfl⟩
        · refine .inr ⟨(har.live j (.inr hsusp)).trans hsusp, ?_⟩
          rw [status, hr]
          simp [closed]
      · simpa only [status, hr, closed, if_neg hjr] using ih

section Transfers

variable (h : m.Orderly) (hline : m.Line line) (hi : (m.routine i).control.isActive = true)
include h hline hi

theorem Line.handOver (hc : (m.status c).isResumable = true) {a : Status}
    (hx : x = .cancel → m.status c = .suspending) : (m.handOver i c a x).Line (c :: line) := by
  obtain ⟨hin, hdoing⟩ := h.resumable hc
  have hr := routine_handOver h.tidy hi hc hin a x
  have hci := h.tidy.ne_reader hi hin
  generalize m.handOver i c a x = m' at hr
  have hidle : (m.routine c).control.waitsFor? = none ∧
      (m.routine c).control.isActive = false := by
    rcases hdoing with ⟨-, s, hf⟩ | ⟨-, hread⟩
    · rw [hf]
      exact ⟨rfl, rfl⟩
    · rw [hread]
      exact ⟨rfl, rfl⟩
  refine hline.push hi hidle.1 hidle.2 ?_ ?_ fun j hji hjc => ?_
  · rw [Awaits, hr]
    simp [handedOver, waitsFor?]
  · rw [hr]
    simp only [handedOver, if_neg hci, if_pos]
    rcases hdoing with ⟨hnew, s, hf⟩ | ⟨-, hread⟩
    · rw [hf]
      cases x with
      | parcel p => rfl
      | cancel => cases hnew.symm.trans (hx rfl)
    · rw [hread]
      cases x <;> rfl
  · rw [hr]
    simp only [handedOver, if_neg hji, if_neg hjc]
    exact ⟨rfl, rfl⟩

theorem Line.disposes (hin : (m.routine c).inbox = .awaited r)
    (hc : ((m.close c).2.routine c).control ≠ .ended) (answer : V) :
    ((m.close c).2.join i c answer).Line (c :: line) := by
  obtain ⟨rfl, hres⟩ := h.of_awaited hin
  have hri := h.tidy.ne_reader hi hin
  have hclosed := routine_close h.tidy hin
  have hi' := h.tidy.isActive_close hi hin
  have hr : ∀ k, ((m.close r).2.join i r answer).routine k = _ := fun k =>
    routine_join hi' hc answer k
  -- A body that never began would have ended at once.
  obtain ⟨-, ⟨-, s, hf⟩ | ⟨-, hread⟩⟩ := h.resumable hres
  · rw [hclosed] at hc
    simp [closed, hf, take] at hc
  · refine hline.push hi (by rw [hread]; rfl) (by rw [hread]; rfl) ?_ ?_ fun j hji hjr => ?_
    · rw [Awaits, hr]
      simp [joined, waitsFor?]
    · rw [hr]
      simp only [joined, if_neg hri, hclosed, closed, if_pos, hread, take]
      rfl
    · rw [hr]
      simp only [joined, hclosed, closed, if_neg hji, if_neg hjr]
      exact ⟨rfl, rfl⟩

theorem Line.yield (hc : m.status i = .running) (hmain : i ≠ .main) (p : Parcel V) :
    (m.yield i i p).Line line.tail := by
  obtain ⟨l, hout⟩ := h.tidy.exists_listener hc hmain
  have hl := (h.tidy.listener i l).1 hout
  have hli := h.tidy.ne_listener hi hout
  have hr := routine_yield h.tidy hi hc hout p
  generalize m.yield i i p = m' at hr
  refine hline.pop (l := l) hi ?_ ?_ ?_ ?_ fun j hji hjl => ?_
  · rw [Awaits, hl]
    rfl
  · rw [hr]
    simp [handedOut, waitsFor?]
  · rw [hr]
    simp [handedOut, isActive]
  · rw [hr]
    simp [handedOut, hli, isActive]
  · rw [hr]
    simp only [handedOut, if_neg hji, if_neg hjl]
    exact ⟨rfl, rfl⟩

theorem Line.finish (o : Outcome V (Parcel V)) : ∃ line', (m.finish i o).Line line' := by
  have hr := routine_finish h.tidy hi o
  generalize m.finish i o = m' at hr
  have hended : (m'.routine i).control = .ended := by
    rw [hr]
    simp [finished]
  -- Who waits for the body, in whatever way, is woken.
  have hlisten : ∀ j, (m.routine i).outbox.reader? = some j ↔
      (m.routine j).control = .listening i := fun j => by
    rw [Slot.reader?_eq_some]
    exact h.tidy.listener i j
  have hwoken : ∀ j, m.Awaits j i → (m'.routine j).control.isActive = true := by
    intro j hj
    have hji : j ≠ i := fun heq => not_awaits_of_isActive hi (heq ▸ hj)
    rw [hr]
    simp only [finished, if_neg hji]
    unfold Awaits waitsFor? at hj
    split at hj
    · next c hc =>
      obtain rfl : c = i := Option.some.inj hj
      rw [if_pos ((hlisten j).2 hc)]
      rfl
    · next c a hc =>
      obtain rfl : c = i := Option.some.inj hj
      have hnot : (m.routine c).outbox.reader? ≠ some j := fun hl =>
        by cases hc.symm.trans ((hlisten j).1 hl)
      rw [if_neg hnot, if_pos ((h.tidy.joiner c j).2 ⟨a, hc⟩), hc]
      rfl
    · cases hj
  have hother : ∀ j, j ≠ i → ¬ m.Awaits j i →
      Similar (m.routine j).control (m'.routine j).control := by
    intro j hji hj
    rw [hr]
    simp only [finished, if_neg hji]
    have hnot : (m.routine i).outbox.reader? ≠ some j := fun hl =>
      hj (by rw [Awaits, (hlisten j).1 hl]; rfl)
    have hnot' : j ∉ (m.routine i).joiners := fun hjoin => by
      obtain ⟨a, ha⟩ := (h.tidy.joiner i j).1 hjoin
      exact hj (by rw [Awaits, ha]; rfl)
    rw [if_neg hnot, if_neg hnot']
    exact ⟨rfl, rfl⟩
  by_cases hmain : i = .main
  · subst hmain
    refine ⟨line, hline.atEnd hi hended fun j hj => hother j hj fun hw => ?_⟩
    obtain ⟨h₁, -, h₂⟩ := h.tidy.main.2 j
    unfold Awaits waitsFor? at hw
    split at hw
    · next c hc => exact h₁ (Option.some.inj hw ▸ hc)
    · next c a hc => exact h₂ a (Option.some.inj hw ▸ hc)
    · cases hw
  · obtain ⟨l, hl⟩ := hline.exists_awaits (List.mem_of_head? (hline.active i hi)) hmain
    refine ⟨line.tail, hline.pop hi hl ?_ ?_ (hwoken l hl) fun j hji hjl => ?_⟩
    · rw [hended]
      rfl
    · rw [hended]
      rfl
    · exact hother j hji fun hj => hjl (hline.awaits_unique hj hl)

/-- The line after a transfer of control. -/
theorem Transfers.exists_line (htr : m.Transfers i m')
    (hown : ∀ c, m.status c = .running →
      (c = i ∨ ∃ v next, (m.routine i).control = .running (.act (.yield c v) next)) → c = i) :
    ∃ line', m'.Line line' := by
  have hlt := lt_of_isActive hi
  cases htr with
  | goes hd =>
    refine ⟨line, hline.similar hi fun j => ?_⟩
    rw [setControl, routine_update_ite hlt]
    split
    · next hji =>
      subst hji
      exact .of_isActive hi hd
    · exact ⟨rfl, rfl⟩
  | resumes p hc hmain hst => exact ⟨_, hline.handOver h hi hc (by simp)⟩
  | @cancels c hc hmain hst =>
    exact ⟨_, hline.handOver h hi (by rw [hc]; rfl) fun _ => hc⟩
  | disposes answer hin hmain hc => exact ⟨_, hline.disposes h hi hin hc answer⟩
  | yields p hc hmain hyield =>
    obtain rfl := hown _ hc hyield
    exact ⟨_, hline.yield h hi hc hmain p⟩

omit hline in
/-- Nobody begins to wait for a coroutine that is canceled already. -/
theorem Transfers.not_awaits (htr : m.Transfers i m')
    (hown : ∀ c, m.status c = .running →
      (c = i ∨ ∃ v next, (m.routine i).control = .running (.act (.yield c v) next)) → c = i)
    (hj : m.status j = .canceled) : ¬ m'.Awaits i j := by
  have hlt := lt_of_isActive hi
  cases htr with
  | goes hd =>
    refine not_awaits_of_isActive ?_
    rw [setControl, routine_update_self hlt]
    exact hd
  | @resumes c p hc hmain hst =>
    rw [Awaits, routine_handOver h.tidy hi hc (h.resumable hc).1]
    simp only [handedOver, if_pos, waitsFor?]
    rintro ⟨⟩
    rw [hj] at hc
    cases hc
  | @cancels c hc hmain hst =>
    have hres : (m.status c).isResumable = true := by rw [hc]; rfl
    rw [Awaits, routine_handOver h.tidy hi hres (h.resumable hres).1]
    simp only [handedOver, if_pos, waitsFor?]
    rintro ⟨⟩
    cases hj.symm.trans hc
  | @disposes c r answer hin hmain hc =>
    obtain ⟨rfl, hres⟩ := h.of_awaited hin
    rw [Awaits, routine_join (h.tidy.isActive_close hi hin) hc]
    simp only [joined, if_pos, waitsFor?]
    rintro ⟨⟩
    rw [hj] at hres
    cases hres
  | @yields c p hc hmain hyield =>
    obtain rfl := hown _ hc hyield
    obtain ⟨l, hout⟩ := h.tidy.exists_listener hc hmain
    rw [Awaits, routine_yield h.tidy hi hc hout]
    simp [handedOut, waitsFor?]

end Transfers

/-- Only what the routines show is concerned. -/
theorem Line.congr (h : m.Line line) (hr : ∀ j, m'.routine j = m.routine j) : m'.Line line where
  main := h.main
  nodup := h.nodup
  waits := h.waits.imp fun c j hj => by rwa [Awaits, hr]
  head j hj := by
    rw [hr]
    exact h.head j hj
  active j hj := h.active j (hr j ▸ hj)
  waiting j c hj := h.waiting j c (by rwa [Awaits, hr] at hj)

/-- A step keeps the line, if bodies hand out through themselves and who drops a suspended body waits
for it. -/
theorem Line.step (hline : m.Line line) (h : m.Orderly) (hown : m.yieldsOwn = true)
    (hdrop : m.waitsForDropped m' = true) (hs : m.step code = some m') :
    ∃ line', m'.Line line' := by
  obtain ⟨i, ready, hready, ⟨hi, hp, -⟩ | ⟨-, rfl⟩⟩ := h.tidy.step_cases hs
  · cases hp with
    | ends hc hst => exact hline.finish h hi _
    | @transfers m₁ _ ha htr =>
      have har := ha.arranged h hi
      have hi₁ : (m₁.routine i).control.isActive = true := har.own ▸ hi
      have hown₁ := fun c => har.yields_own (c := c) hown hready
      have hsimilar : ∀ j, Similar (m.routine j).control (m₁.routine j).control := by
        intro j
        rcases ha.similar h hi j with hsimilar | ⟨hst, hst₁⟩
        · exact hsimilar
        -- What was dropped is not touched again, and nobody waits for it.
        apply False.elim
        have hst' : m'.status j = .canceled := by
          rcases htr.status har.orderly hi₁ hown₁ j with ⟨hsame, -⟩ | hchange
          · exact hsame.trans hst₁
          · rw [hst₁] at hchange
            obtain rfl := hchange.eq_of_canceled
            rcases h.working hi with hw | hw <;> cases hst.symm.trans hw
        exact htr.not_awaits har.orderly hi₁ hown₁ hst₁ (awaits_of_dropped hdrop hready hst hst')
      exact htr.exists_line har.orderly (hline.similar hi hsimilar) hi₁ hown₁
  · exact ⟨line, hline.congr fun _ => rfl⟩

theorem Line.passTurn (h : m.Line line) : m.passTurn.Line line := h.congr (routine_passTurn m)

/-- In the beginning the main line is alone. -/
theorem line_initial (store : σ) (c : Code P V σ V) : (initial store c).Line [.main] := by
  have hidle : ∀ j : RoutineId, j = .main ∨
      ((initial store c : Machine P V σ).routine j).control = .ended := by
    intro j
    rcases routine_initial store c j with ⟨-, hj⟩ | habsent
    · exact .inl hj
    · exact .inr (by rw [habsent]; rfl)
  constructor
  case main => rfl
  case nodup => simp
  case waits => exact .singleton _
  case head =>
    intro i hi
    obtain rfl : RoutineId.main = i := Option.some.inj hi
    exact .inl rfl
  case active =>
    intro i hi
    rcases hidle i with rfl | hended
    · rfl
    · rw [hended] at hi
      cases hi
  case waiting =>
    intro i c hi
    rcases hidle i with rfl | hended
    · simp
    · rw [Awaits, hended] at hi
      cases hi

/-! ## What the line says -/

/-- Machines in whose steps bodies hand out through themselves, and who drops a suspended body waits
for its end. -/
abbrev ReachesInLine (code : P → Entry V → Code P V σ V) :
    Machine P V σ → Machine P V σ → Prop :=
  ReachesUnder code fun m m' => (m.yieldsOwn && m.waitsForDropped m') = true

theorem ReachesUnder.exists_line (h : ReachesInLine code m m') (hm : m.Orderly)
    (hline : m.Line line) : m'.Orderly ∧ ∃ line', m'.Line line' := by
  refine @ReachesUnder.invariant P V σ code _ (fun m => m.Orderly ∧ ∃ line, m.Line line) ?_ ?_
    m m' h ⟨hm, line, hline⟩
  · rintro m m' ⟨hm, line, hline⟩ hrule hs
    obtain ⟨hown, hdrop⟩ := Bool.and_eq_true_iff.1 hrule
    exact ⟨hm.step hown hs, hline.step hm hown hdrop hs⟩
  · rintro m ⟨hm, line, hline⟩
    exact ⟨hm.passTurn, line, hline.passTurn⟩

/-- No chain of waits leads back. -/
theorem Line.acyclic (h : m.Line line) (i : RoutineId) :
    ¬ Relation.TransGen m.Awaits i i := by
  have hless : ∀ j, Relation.TransGen m.Awaits i j → line.idxOf j < line.idxOf i := by
    intro j hj
    induction hj with
    | single hw =>
      have hnext := h.idxOf_eq hw
      omega
    | tail _ hw ih =>
      have hnext := h.idxOf_eq hw
      omega
  exact fun hi => Nat.lt_irrefl _ (hless i hi)

/-- What a routine does in an orderly machine, by its status. -/
theorem Orderly.doing (h : m.Orderly) (c : RoutineId) :
    (m.status c = .notRunning ∧ ∃ s, (m.routine c).control = .fresh s) ∨
      (m.status c = .suspending ∧ (m.routine c).control = .reading c) ∨
      ((m.status c).isTerminal = true ∧ (m.routine c).control = .ended) ∨
      (m.status c = .running ∨ m.status c = .canceled) ∧
        ((m.routine c).control.isActive = true ∨ ∃ d, m.Awaits c d) := by
  have hpos := h.inOrder c
  unfold Routine.InOrder at hpos
  unfold Awaits status
  cases hc : (m.routine c).control with
  | fresh s => exact .inl ⟨by rwa [hc] at hpos, s, rfl⟩
  | reading d =>
    rw [hc] at hpos
    obtain ⟨rfl, hst⟩ := hpos
    exact .inr (.inl ⟨hst, rfl⟩)
  | ended => exact .inr (.inr (.inl ⟨by rwa [hc] at hpos, rfl⟩))
  | listening d => exact .inr (.inr (.inr ⟨by rwa [hc] at hpos, .inr ⟨d, rfl⟩⟩))
  | joining d a => exact .inr (.inr (.inr ⟨by rwa [hc] at hpos, .inr ⟨d, rfl⟩⟩))
  | _ => exact .inr (.inr (.inr ⟨by rwa [hc] at hpos, .inl rfl⟩))

/-- Who is at work, or waits for another routine, is in the line. -/
theorem Line.mem (h : m.Line line)
    (hc : (m.routine c).control.isActive = true ∨ ∃ d, m.Awaits c d) : c ∈ line := by
  rcases hc with hc | ⟨d, hd⟩
  · exact List.mem_of_head? (h.active c hc)
  · exact h.waiting c d hd

/-- A coroutine in the line can neither be resumed nor canceled. -/
theorem Line.refusing (h : m.Line line) (hm : m.Orderly) (hc : c ∈ line)
    (hco : m.isCoroutine c = true) :
    (m.status c).isResumable = false ∧ m.status c ≠ .suspending := by
  have hworks : m.status c = .running ∨ m.status c = .canceled := by
    rcases h.head_or_awaits hc with hhead | ⟨d, -, hd⟩
    · rcases h.head c hhead with hactive | ⟨rfl, -⟩
      · exact hm.working hactive
      · cases hco
    · rcases hm.doing c with ⟨-, s, hs⟩ | ⟨-, hs⟩ | ⟨-, hs⟩ | ⟨hst, -⟩
      · simp [Awaits, hs, waitsFor?] at hd
      · simp [Awaits, hs, waitsFor?] at hd
      · simp [Awaits, hs, waitsFor?] at hd
      · exact hst
  rcases hworks with hst | hst <;> simp [hst, Status.isResumable]

/-- What a line of control says about the routines of a machine. -/
structure LineOfControl (code : P → Entry V → Code P V σ V) (m : Machine P V σ)
    (line : List RoutineId) : Prop where
  order : m.Line line
  /-- Who runs is in the line. -/
  running : ∀ c, m.status c = .running → c ∈ line
  /-- A coroutine in the line runs if it was resumed, and is canceled if it is canceled or dropped. -/
  resumed : ∀ i c, (m.routine i).control = .listening c → (m.routine i).isCanceling = false →
    m.status c = .running
  canceling : ∀ i c, (m.routine i).control = .listening c → (m.routine i).isCanceling = true →
    m.status c = .canceled
  disposed : ∀ i c a, (m.routine i).control = .joining c a → m.status c = .canceled
  member : ∀ c ∈ line, c = .main ∨ ∃ i, m.Awaits i c
  suspending : ∀ c, m.status c = .suspending → (m.routine c).control = .reading c
  notRunning : ∀ c, m.status c = .notRunning → ∃ s, (m.routine c).control = .fresh s
  ended : ∀ c, m.status c = .done ∨ m.status c = .panicked → (m.routine c).control = .ended
  canceled : ∀ c, m.status c = .canceled → (m.routine c).control = .ended ∨ c ∈ line
  /-- Nobody in the line can be resumed or canceled. -/
  resume : ∀ i, ∀ c ∈ line, m.isCoroutine c = true → ∀ v,
    m.Refuses code i (.resume c v) (.cannotResume (m.status c))
  resumeOn : ∀ i r, ∀ c ∈ line, m.isCoroutine c = true → ∀ v,
    m.RefusesOn code i (.registry r) (.resumeOn r c v) (.cannotResume (m.status c))
  cancel : ∀ i, ∀ c ∈ line, m.isCoroutine c = true → ∀ answer,
    m.Refuses code i (.cancel c answer) (.cannotCancel (m.status c))
  /-- No routines wait for each other. -/
  acyclic : ∀ i, ¬ Relation.TransGen m.Awaits i i

/-- At every moment there is a single line of control. -/
theorem ReachesUnder.lineOfControl {store : σ} {c₀ : Code P V σ V}
    (h : ReachesInLine code (initial store c₀) m) : ∃ line, m.LineOfControl code line := by
  obtain ⟨hm, line, hline⟩ := h.exists_line (orderly_initial store c₀) (line_initial store c₀)
  have hlisten : ∀ i c, (m.routine i).control = .listening c →
      m.status c = if (m.routine i).isCanceling then .canceled else .running :=
    fun i c => hm.tidy.heard c i
  have hjoin : ∀ i c a, (m.routine i).control = .joining c a → m.status c = .canceled :=
    fun i c a hi =>
      ((hm.tidy.slotted c).joiners (List.ne_nil_of_mem ((hm.tidy.joiner c i).2 ⟨a, hi⟩))).1
  refine ⟨line, ?_⟩
  constructor
  case order => exact hline
  case resumed =>
    intro i c hi hst
    rw [hlisten i c hi, hst]
    rfl
  case canceling =>
    intro i c hi hst
    rw [hlisten i c hi, hst]
    rfl
  case disposed => exact hjoin
  case member =>
    intro c hc
    by_cases hmain : c = .main
    · exact .inl hmain
    · exact .inr (hline.exists_awaits hc hmain)
  case running =>
    intro c hc
    rcases hm.doing c with ⟨hst, -⟩ | ⟨hst, -⟩ | ⟨hst, -⟩ | ⟨-, hdoing⟩
    · cases hc.symm.trans hst
    · cases hc.symm.trans hst
    · rw [hc] at hst
      cases hst
    · exact hline.mem hdoing
  case suspending =>
    intro c hc
    rcases hm.doing c with ⟨hst, -⟩ | ⟨-, hread⟩ | ⟨hst, -⟩ | ⟨hst | hst, -⟩
    · cases hc.symm.trans hst
    · exact hread
    · rw [hc] at hst
      cases hst
    · cases hc.symm.trans hst
    · cases hc.symm.trans hst
  case notRunning =>
    intro c hc
    rcases hm.doing c with ⟨-, hfresh⟩ | ⟨hst, -⟩ | ⟨hst, -⟩ | ⟨hst | hst, -⟩
    · exact hfresh
    · cases hc.symm.trans hst
    · rw [hc] at hst
      cases hst
    · cases hc.symm.trans hst
    · cases hc.symm.trans hst
  case ended =>
    intro c hc
    rcases hm.doing c with ⟨hst, -⟩ | ⟨hst, -⟩ | ⟨-, hended⟩ | ⟨hst, -⟩
    · simp [hst] at hc
    · simp [hst] at hc
    · exact hended
    · rcases hst with hst | hst <;> simp [hst] at hc
  case canceled =>
    intro c hc
    rcases hm.doing c with ⟨hst, -⟩ | ⟨hst, -⟩ | ⟨-, hended⟩ | ⟨-, hdoing⟩
    · cases hc.symm.trans hst
    · cases hc.symm.trans hst
    · exact .inl hended
    · exact .inr (hline.mem hdoing)
  case resume => exact fun i c hc hco v => refuses_resume hco (hline.refusing hm hc hco).1 v
  case resumeOn => exact fun i r c hc hco v => refuses_resumeOn hco (hline.refusing hm hc hco).1 r v
  case cancel =>
    exact fun i c hc hco answer => refuses_cancel hco (hline.refusing hm hc hco).2 answer
  case acyclic => exact hline.acyclic

/-! A coroutine that resumes another one, which resumes the first. -/

/-- The outer body makes a coroutine and resumes it; the inner one resumes the outer one. -/
def resumesBack : Bool → Entry Nat → Code Bool Nat Unit Nat
  | true, .start v _ => .ask (.spawn .standard false) fun c => .perform (.resume c v)
  | _, _ => .perform (.resume ⟨1⟩ 0)

/-- Makes the outer coroutine and resumes it. -/
def resumesOuter : Code Bool Nat Unit Nat :=
  .ask (.spawn .standard true) fun c => .perform (.resume c 7)

theorem lineOfControl_resumesOuter :
    ∃ m, ReachesInLine resumesBack (initial () resumesOuter) m ∧ m.status ⟨1⟩ = .running ∧
      m.status ⟨2⟩ = .running ∧ m.Awaits ⟨1⟩ ⟨2⟩ ∧ ∃ line, m.LineOfControl resumesBack line := by
  have hrule : ∀ m m' : Machine Bool Nat Unit, (m.yieldsOwn && m.waitsForDropped m') = true →
      (m.yieldsOwn && m.waitsForDropped m') = true := fun _ _ => id
  have hreach : ReachesInLine resumesBack (initial () resumesOuter) _ :=
    .of_runUnder 6 hrule rfl
  exact ⟨_, hreach, rfl, rfl, rfl, hreach.lineOfControl⟩

end Machine

end OneShot
