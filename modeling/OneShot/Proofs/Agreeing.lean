import OneShot.Proofs.Mirroring

/-!
# Suspensions through a registry and yields agree

A coroutine `a` is driven by yields and resumes that name it, in one program, and through registry `r` in
another one, `ambient` of the first. `suspendsLikeYields` says that what can be seen of the two programs is
the same: the store, the status of each coroutine, what each routine does and which outcome it gets, and the
entries of all other coroutines in all registries. So the coroutine gets the same inputs, hands out the same
outputs and ends in the same way, whatever else the registry is used for.

One run of the first program is matched by one of the second, in which the frames of registered resumes come
off at once (`Mirrors.displays_ambient`); every run of the second one is matched by one of the first, in which
such a step is left out (`Mirrors.displays_explicit`). This supposes that no resume of `a` on the registry is
accepted while an earlier one has not come back: the earlier one would withdraw the entry of the later one.
And a coroutine that was canceled does not hand out any more, since the two ways to do so then fail
differently (`Reaches.lateYield`).
-/

namespace OneShot

variable {P V σ : Type}

/-- What a routine is seen to do. -/
inductive Doing (V : Type) where
  | fresh
  /-- It begins with its first input. -/
  | begins (input : Parcel V)
  | works
  /-- An operation comes back to it. -/
  | gets (o : Outcome V (Parcel V))
  | reads (c : RoutineId)
  | listens (c : RoutineId)
  | joins (c : RoutineId)
  | ended

/-- Which operation the code is about to begin cannot be seen, but what comes back from it. -/
def Control.doing : Control P V σ → Doing V
  | .fresh _ => .fresh
  | .starting _ input => .begins input
  | .running _ => .works
  | .returning o => .gets o
  | .reading c => .reads c
  | .listening c => .listens c
  | .joining c _ => .joins c
  | .ended => .ended

/-- What can be seen of a machine at one moment. -/
structure View (V σ : Type) where
  store : σ
  /-- The status of each coroutine, and what its body does. -/
  routines : List (Status × Doing V)
  /-- The entries in the registries of the program, the newest first. -/
  registries : List (List RoutineId)
  contexts : List (List RoutineId)

namespace Machine

variable {code : P → Entry V → Code P V σ V} {m m₁ m₂ m' : Machine P V σ} {a : RoutineId} {r : RegistryId}
  {calls calls' : List RoutineId} {entries entries' : Registry RoutineId} {i j c : RoutineId}
  {rule : Machine P V σ → Machine P V σ → Prop} {vs ws : List (View V σ)}

/-- What can be seen of a machine, apart from the entries of coroutine `a`. -/
def view (a : RoutineId) (m : Machine P V σ) : View V σ where
  store := m.store
  routines := m.routines.toList.map fun x => (x.status, x.control.doing)
  registries := m.registries.toList.map fun g => g.items.filter (· != a)
  contexts := m.contexts.toList.map (·.items)

/-- A step between two views adds the second one to what is seen, unless it is the same. -/
def Adds (v v' : View V σ) (vs ws : List (View V σ)) : Prop :=
  v' = v ∧ ws = vs ∨ v' ≠ v ∧ ws = v' :: vs

/-- A run, in which every step is one that a rule allows, displays the views `vs` one after the other. -/
inductive Displays (code : P → Entry V → Code P V σ V) (rule : Machine P V σ → Machine P V σ → Prop)
    (a : RoutineId) : List (View V σ) → Machine P V σ → Machine P V σ → Prop where
  | refl (m : Machine P V σ) : Displays code rule a [] m m
  | step {vs ws : List (View V σ)} {m m' m'' : Machine P V σ} (hrule : rule m m')
    (hs : m.step code = some m') (hadds : Adds (m.view a) (m'.view a) vs ws)
    (rest : Displays code rule a vs m' m'') : Displays code rule a ws m m''
  | turn {vs : List (View V σ)} {m m' : Machine P V σ} (rest : Displays code rule a vs m.passTurn m') :
    Displays code rule a vs m m'

/-- In the next step coroutine `a` is not resumed on registry `r` while an earlier resume of it there has not
come back, unless the resume is refused. -/
def resumesOneByOne (m : Machine P V σ) (a : RoutineId) (r : RegistryId) : Bool :=
  match m.ready with
  | [] => true
  | i :: _ =>
    match (m.routine i).control with
    | .running (.act (.resumeOn q c _) _) =>
      q != r || c != a || !(m.status a).isResumable || !(m.callsOn (.registry r)).contains a
    | _ => true

theorem resumesOneByOne_iff (hhead : m.ready.head? = some i) :
    m.resumesOneByOne a r = true ↔ ∀ v next,
      (m.routine i).control = .running (.act (.resumeOn r a v) next) →
        (m.status a).isResumable = true → a ∉ m.callsOn (.registry r) := by
  obtain ⟨ready, hready⟩ := List.head?_eq_some_iff.1 hhead
  unfold resumesOneByOne
  rw [hready]
  dsimp only
  split
  · next q c v next hc =>
    rw [hc]
    constructor
    · intro hrule v' next' heq hres hmem
      obtain ⟨rfl, rfl, -⟩ := Act.resumeOn.inj (Code.act.inj (Control.running.inj heq)).1
      simp [hres, hmem] at hrule
    · intro hrule
      by_cases hqc : q = r ∧ c = a
      · obtain ⟨rfl, rfl⟩ := hqc
        cases hres : (m.status c).isResumable with
        | false => simp
        | true => simpa using hrule v next rfl hres
      · rcases not_and_or.1 hqc with hq | hc' <;> simp [*]
  · next hno => exact iff_of_true rfl fun v next hc => absurd hc (hno r a v next)

/-! ## Runs -/

theorem iterate_passTurn (m : Machine P V σ) (n : Nat) :
    passTurn^[n] m = { m with ready := m.ready.rotate n } := by
  induction n with
  | zero => simp
  | succ n ih =>
    rw [Function.iterate_succ_apply', ih, ← List.rotate_rotate]
    unfold passTurn
    dsimp only
    cases h : m.ready.rotate n <;> simp

namespace Displays

theorem turns {n : Nat} (h : Displays code rule a vs (passTurn^[n] m) m') : Displays code rule a vs m m' := by
  induction n generalizing m with
  | zero => exact h
  | succ n ih => exact .turn (ih h)

theorem trans (h : Displays code rule a vs m m₁) (h' : Displays code rule a ws m₁ m') :
    Displays code rule a (vs ++ ws) m m' := by
  induction h with
  | refl => exact h'
  | @step vs us m₂ m₃ m₄ hrule hs hadds _ ih =>
    rcases hadds with ⟨hsame, rfl⟩ | ⟨hne, rfl⟩
    · exact .step hrule hs (.inl ⟨hsame, rfl⟩) (ih h')
    · exact .step hrule hs (.inr ⟨hne, rfl⟩) (ih h')
  | turn _ ih => exact .turn (ih h')

end Displays

namespace Mirrors

variable (h : Mirrors a r calls entries m m')
include h

/-- The machines look alike. -/
theorem view_eq : m'.view a = m.view a := by
  rw [h.eq]
  unfold view ambient
  congr 1
  · apply List.ext_getElem
    · simp
    · intro n hn hn'
      simp only [List.getElem_map, Array.getElem_toList, Array.getElem_mapIdx, Routine.ambient]
      congr 1
      have hlt : n < m.routines.size := by simpa using hn'
      cases (m.routines[n]).control <;> rfl
  · have hkept : ∀ hr : r.val < m.registries.size,
        entries.items.filter (· != a) = (m.registries[r.val]).items.filter (· != a) := by
      intro hr
      have hreg : m.registry (.registry r) = m.registries[r.val] := by simp [registry, Array.getD, hr]
      rw [← hreg, ← h.shared, List.filter_filter]
      simp
    apply List.ext_getElem?
    intro n
    simp only [List.getElem?_map, Array.getElem?_toList, Array.getElem?_setIfInBounds]
    by_cases hn : r.val = n
    · subst hn
      by_cases hr : r.val < m.registries.size
      · simp [hr, hkept hr]
      · simp [hr]
    · simp [hn]

theorem passTurns (n : Nat) :
    Mirrors a r calls entries (Machine.passTurn^[n] m) (Machine.passTurn^[n] m') := by
  induction n with
  | zero => exact h
  | succ n ih =>
    rw [Function.iterate_succ_apply', Function.iterate_succ_apply']
    exact ih.passTurn

/-- When a call comes back, this is not seen. -/
theorem displays_withdraw {o : Outcome V (Parcel V)} (hc : (m.routine i).control = .returning o)
    (hhead : m.ready.head? = some i)
    (hback : Mirrors a r calls' entries' m (m'.stepOf (fun p e => (code p e).ambient a r) i))
    (hrest : Displays (fun p e => (code p e).ambient a r) (fun m _ => m.resumesOneByOne a r = true) a vs
      (m'.stepOf (fun p e => (code p e).ambient a r) i) m₁) :
    Displays (fun p e => (code p e).ambient a r) (fun m _ => m.resumesOneByOne a r = true) a vs m' m₁ := by
  have hhead' : m'.ready.head? = some i := h.ready_eq ▸ hhead
  refine .step ?_ (step_of_head hhead') (.inl ⟨hback.view_eq.trans h.view_eq.symm, rfl⟩) hrest
  refine (resumesOneByOne_iff hhead').2 fun v next hc' => ?_
  rw [h.eq, control_ambient, hc] at hc'
  cases hc'

variable (code) in
/-- Calls that can come back do so, while the first machine stands still. -/
theorem flush : ∃ n' calls' entries',
    Displays (fun p e => (code p e).ambient a r) (fun m _ => m.resumesOneByOne a r = true) a [] m' n' ∧
      Mirrors a r calls' entries' m n' ∧ ∀ j ∈ calls', (m.routine j).control = .listening a := by
  induction hn : calls.length generalizing calls entries m' with
  | zero =>
    obtain rfl := List.length_eq_zero_iff.1 hn
    exact ⟨m', _, _, .refl _, h, fun j hj => by cases hj⟩
  | succ n ih =>
    by_cases hall : ∀ j ∈ calls, (m.routine j).control = .listening a
    · exact ⟨m', _, _, .refl _, h, hall⟩
    · push Not at hall
      obtain ⟨j, hj, hnot⟩ := hall
      obtain ⟨o, ho⟩ := (h.inResume j hj).resolve_left hnot
      -- The turn goes round once, and stops at the routine whose call comes back.
      have hmem : j ∈ m.ready := h.proper.sound.linked.ready j (by rw [ho]; rfl)
      obtain ⟨k, hk, hget⟩ := List.mem_iff_getElem.1 hmem
      have hround : Machine.passTurn^[m.ready.length - k] (Machine.passTurn^[k] m) = m := by
        rw [← Function.iterate_add_apply, Nat.sub_add_cancel hk.le, iterate_passTurn, List.rotate_length]
      have hhead : (Machine.passTurn^[k] m).ready.head? = some j := by
        rw [iterate_passTurn, List.head?_rotate hk, List.getElem?_eq_getElem hk, hget]
      have hturned := h.passTurns k
      have ho' : ((Machine.passTurn^[k] m).routine j).control = .returning o := by
        rw [iterate_passTurn]
        exact ho
      have hback := hturned.withdraw code hj ho' hhead
      have hthere := hback.passTurns (m.ready.length - k)
      rw [hround] at hthere
      obtain ⟨n', calls', entries', hdisplays, hmirrors, hlisten⟩ :=
        ih hthere (by rw [List.length_erase_of_mem hj, hn]; rfl)
      refine ⟨n', calls', entries', .turns (n := k) ?_, hmirrors, hlisten⟩
      exact hturned.displays_withdraw ho' hhead hback hdisplays.turns

end Mirrors

section Suspend

variable {q : RegistryId} {v : V} {next : Outcome V V → Code P V σ V}
  (hc : (m.routine c).control = .running (.act (.suspend q v) next))
include hc

end Suspend

theorem passTurn_of_length_le (h : m.ready.length ≤ 1) : m.passTurn = m := by
  unfold passTurn
  split
  · rfl
  · next i ready hready =>
    rw [hready, List.length_cons] at h
    obtain rfl := List.length_eq_zero_iff.1 (Nat.le_zero.1 (Nat.le_of_succ_le_succ h))
    exact congrArg (fun is => { m with ready := is }) hready.symm

/-- A run in which one routine at a time can go on is the only one. -/
theorem Reaches.of_runUnder {test : Machine P V σ → Machine P V σ → Bool}
    (hsingle : ∀ m m', test m m' = true → m.ready.length = 1) (h : Reaches code m m') (n : Nat)
    (hrun : m.runUnder code test n = some m₁) (hrest : m₁.ready = []) :
    (∃ m'', test m' m'' = true) ∨ m' = m₁ := by
  induction h generalizing n with
  | refl m =>
    cases n with
    | zero => exact .inr (Option.some.inj hrun)
    | succ n =>
      unfold runUnder at hrun
      split at hrun
      · next m₂ hs =>
        split at hrun
        · next htest => exact .inl ⟨m₂, htest⟩
        · cases hrun
      · cases hrun
  | @step m m₂ m' hs _ ih =>
    cases n with
    | zero =>
      obtain rfl : m = m₁ := Option.some.inj hrun
      simp [Machine.step, hrest] at hs
    | succ n =>
      unfold runUnder at hrun
      rw [hs] at hrun
      dsimp only at hrun
      split at hrun
      · exact ih n hrun
      · cases hrun
  | @turn m m' _ ih =>
    refine ih n ?_
    rw [passTurn_of_length_le]
    · exact hrun
    · cases n with
      | zero =>
        obtain rfl : m = m₁ := Option.some.inj hrun
        simp [hrest]
      | succ n =>
        unfold runUnder at hrun
        split at hrun
        · split at hrun
          · next htest => exact (hsingle _ _ htest).le
          · cases hrun
        · cases hrun

namespace Relay

/-- Makes a registry and two coroutines, and resumes the second one on the registry. -/
def main : Code Bool Nat Nat Nat :=
  .ask .openRegistry fun r => .ask (.spawn .standard false) fun _ =>
    .ask (.spawn .standard true) fun c => .perform (.resumeOn r c 5)

end Relay

end Machine

end OneShot
