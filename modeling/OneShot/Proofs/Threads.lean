import OneShot.Proofs.Fair
import OneShot.Proofs.Standing

/-!
# Threads under nested calls

A nested call runs on the thread of its caller while that hosts fewer than `maxNested` calls, and otherwise
on a fresh thread. The frame of the call says what depth and thread were before.

`Standing.threads` reads off which threads a routine has in use, and which of its nested calls each hosts.
A routine that stands where it can come by beginning calls has them spread over threads in order
(`Onto.spread`). Every step keeps that, as it only puts frames on top, or takes the topmost one off
(`shifts_stepOf`). So a call that begins keeps depth and thread of its caller (`begins_of_step`) until it
hands its outcome on, at that depth and on that thread (`goesBack_of_reaches`).
-/

namespace OneShot

variable {P V σ : Type}

/-- A thread that a routine has in use. The one on which it began has number zero. -/
structure Thread where
  number : Nat
  name : String
  depth : Nat
  /-- The nested calls that the thread hosts, the newest first. The outermost call of a routine is at
  level 1, and each call is one level above that in which it began. -/
  levels : List Nat
deriving DecidableEq, Repr

namespace Thread

open Machine (maxNested)

variable {thread : Thread} {n : Nat}

/-- The thread hosts those of the active calls that are its share, and its depth is their number. -/
structure Hosts (thread : Thread) (calls : Nat) : Prop where
  depth : thread.depth = thread.levels.length
  room : thread.depth ≤ maxNested
  nodup : thread.levels.Nodup
  share : ∀ n, n ∈ thread.levels ↔ 1 ≤ n ∧ n ≤ calls ∧ (n - 1) / maxNested = thread.number

/-- The thread with one call more. -/
def host (thread : Thread) (level : Nat) : Thread :=
  { thread with depth := thread.depth + 1, levels := level :: thread.levels }

/-- The thread on which the routine began, or one that was made for a call which is the first on it. -/
theorem hosts_empty (name : String) (h : n % maxNested = 0) : (⟨n / maxNested, name, 0, []⟩ : Thread).Hosts n where
  depth := rfl
  room := Nat.zero_le _
  nodup := List.nodup_nil
  share k := by
    unfold maxNested at *
    simp only [List.not_mem_nil, false_iff]
    omega

namespace Hosts

theorem host (h : thread.Hosts n) (hroom : thread.depth < maxNested) (hshare : n / maxNested = thread.number) :
    (thread.host (n + 1)).Hosts (n + 1) where
  depth := congrArg Nat.succ h.depth
  room := hroom
  nodup := by
    refine List.nodup_cons.mpr ⟨fun hmem => ?_, h.nodup⟩
    have hle := ((h.share _).mp hmem).2.1
    omega
  share k := by
    rw [Thread.host, List.mem_cons, h.share]
    constructor
    · rintro (rfl | ⟨hone, hle, hk⟩)
      · exact ⟨by omega, le_rfl, hshare⟩
      · exact ⟨hone, by omega, hk⟩
    · rintro ⟨hone, hle, hk⟩
      -- The share grows by the last level only.
      by_cases hlast : k = n + 1
      · exact .inl hlast
      · exact .inr ⟨hone, by omega, hk⟩

/-- A call on another thread. -/
theorem aside (h : thread.Hosts n) (hshare : n / maxNested ≠ thread.number) : thread.Hosts (n + 1) where
  depth := h.depth
  room := h.room
  nodup := h.nodup
  share k := by
    rw [h.share]
    refine ⟨fun ⟨hone, hle, hk⟩ => ⟨hone, by omega, hk⟩, fun ⟨hone, hle, hk⟩ => ⟨hone, ?_, hk⟩⟩
    by_contra hlast
    obtain rfl : k = n + 1 := by omega
    exact hshare hk

end Hosts

end Thread

namespace Standing

open Machine (maxNested)

variable {s s' w : Standing P V σ} {f : Frame P V σ} {name : String} {others : List Thread}
  {caller thread : Thread} {n : Nat}

/-- How many nested calls are active. -/
def calls (s : Standing P V σ) : Nat := s.stack.countP Frame.isNested

/-- The threads in use where depth and thread are given on top of a stack, the current one first. A nested
call is on the thread below it unless that was full. -/
def threadsOn (depth : Nat) (name : String) : List (Frame P V σ) → List Thread
  | [] => [⟨0, name, depth, []⟩]
  | .nested d t :: st =>
    let level := st.countP Frame.isNested + 1
    match threadsOn d t st with
    | [] => []
    | caller :: others =>
      if d < maxNested then
        { caller with depth := depth, levels := level :: caller.levels } :: others
      else
        ⟨caller.number + 1, name, depth, [level]⟩ :: caller :: others
  | _ :: st => threadsOn depth name st

/-- The threads that the routine has in use, the current one first. -/
def threads (s : Standing P V σ) : List Thread := threadsOn s.depth s.thread s.stack

/-- How the nested calls of a routine are spread over threads. -/
structure Spread (s : Standing P V σ) : Prop where
  /-- There is one more thread for each full one below the current one. -/
  numbers : s.threads.map (·.number) = (List.range ((s.calls - 1) / maxNested + 1)).reverse
  /-- The routine runs on the newest of the threads. -/
  current : s.threads.head?.map (fun thread => (thread.name, thread.depth)) = some (s.thread, s.depth)
  /-- The depth there is what is left of the calls when the full threads are taken off. -/
  position : s.depth + maxNested * ((s.calls - 1) / maxNested) = s.calls
  /-- Each thread hosts as many levels in a row as fit. -/
  hosts : ∀ thread ∈ s.threads, thread.Hosts s.calls
  /-- The fresh threads are named after the contexts of their first calls. -/
  names : ∀ thread ∈ s.threads, 0 < thread.number → ∃ config : Config, thread.name = config.nestedName

theorem calls_push (hf : f.isNested = false) : (s.push f).calls = s.calls := by
  simp [calls, push, hf]

theorem stack_enter (s : Standing P V σ) (config : Config) :
    (s.enter config).stack = .nested s.depth s.thread :: s.stack := by
  unfold enter
  split <;> rfl

theorem calls_enter (config : Config) : (s.enter config).calls = s.calls + 1 := by
  rw [calls, stack_enter]
  exact List.countP_cons_of_pos rfl

theorem threads_push (hf : f.isNested = false) : (s.push f).threads = s.threads := by
  cases f with
  | nested d t => cases hf
  | _ => rfl

namespace Spread

variable (h : s.Spread)
include h

theorem push (hf : f.isNested = false) : (s.push f).Spread where
  numbers := by rw [threads_push hf, calls_push hf, h.numbers]
  current := by rw [threads_push hf]; exact h.current
  position := by rw [calls_push hf]; exact h.position
  hosts := by rw [threads_push hf, calls_push hf]; exact h.hosts
  names := by rw [threads_push hf]; exact h.names

/-- The current thread, and those below it. -/
theorem exists_threads : ∃ current others, s.threads = current :: others ∧
    current.number = (s.calls - 1) / maxNested ∧ current.name = s.thread ∧ current.depth = s.depth ∧
    ∀ thread ∈ others, thread.number < current.number := by
  have hnumbers := h.numbers
  have hcurrent := h.current
  cases hthreads : s.threads with
  | nil => simp [hthreads] at hcurrent
  | cons current others =>
    simp only [hthreads, List.map_cons, List.range_succ, List.reverse_append, List.reverse_cons,
      List.reverse_nil, List.nil_append, List.singleton_append, List.cons.injEq] at hnumbers
    simp only [hthreads, List.head?_cons, Option.map_some, Option.some.injEq, Prod.mk.injEq] at hcurrent
    refine ⟨current, others, rfl, hnumbers.1, hcurrent.1, hcurrent.2, fun thread hthread => ?_⟩
    have hmem : thread.number ∈ (List.range ((s.calls - 1) / maxNested)).reverse :=
      hnumbers.2 ▸ List.mem_map_of_mem hthread
    rw [hnumbers.1]
    simpa using hmem

/-- A call on the thread of its caller. -/
theorem enter_of_lt (config : Config) (hlt : s.depth < maxNested) : (s.enter config).Spread := by
  obtain ⟨caller, others, hs, hnumber, hname, hdepth, hothers⟩ := h.exists_threads
  have hposition := h.position
  -- Below the caller all threads are full, and this one is not: the next level is still its share.
  have hshare : s.calls / maxNested = caller.number := by
    unfold maxNested at *
    omega
  have hthreads : (s.enter config).threads = caller.host (s.calls + 1) :: others := by
    have hon : threadsOn s.depth s.thread s.stack = caller :: others := hs
    simp [enter, hlt, threads, threadsOn, hon, calls, Thread.host, hdepth]
  have hcalls := calls_enter (s := s) config
  constructor
  case numbers =>
    rw [hthreads, hcalls, Nat.add_sub_cancel, hshare, hnumber, ← h.numbers, hs]
    rfl
  case current =>
    rw [hthreads]
    simp [Thread.host, hname, hdepth, enter, hlt]
  case position =>
    rw [hcalls, Nat.add_sub_cancel, hshare, hnumber]
    simp only [enter, hlt, if_true]
    omega
  case hosts =>
    rw [hthreads, hcalls, List.forall_mem_cons]
    refine ⟨(h.hosts caller (hs ▸ List.mem_cons_self)).host (hdepth ▸ hlt) hshare, fun thread hthread => ?_⟩
    -- The others are full, and the new level is beyond their share.
    have hbelow := hothers thread hthread
    exact (h.hosts thread (hs ▸ List.mem_cons_of_mem _ hthread)).aside (by omega)
  case names =>
    have hnames := h.names
    rw [hs, List.forall_mem_cons] at hnames
    rw [hthreads, List.forall_mem_cons]
    exact hnames

/-- A call on a fresh thread. -/
theorem enter_of_ge (config : Config) (hge : ¬ s.depth < maxNested) : (s.enter config).Spread := by
  obtain ⟨caller, others, hs, hnumber, hname, hdepth, hothers⟩ := h.exists_threads
  have hposition := h.position
  have hroom := (h.hosts caller (hs ▸ List.mem_cons_self)).room
  -- The caller's thread is full too, so the calls fill all threads exactly.
  have hshare : s.calls / maxNested = caller.number + 1 ∧ s.calls % maxNested = 0 := by
    unfold maxNested at *
    omega
  let fresh : Thread := ⟨s.calls / maxNested, config.nestedName, 0, []⟩
  have hthreads : (s.enter config).threads = fresh.host (s.calls + 1) :: s.threads := by
    have hon : threadsOn s.depth s.thread s.stack = caller :: others := hs
    simp [enter, hge, threads, threadsOn, hon, calls, Thread.host, fresh, ← hshare.1]
  have hcalls := calls_enter (s := s) config
  constructor
  case numbers =>
    have hmap : (s.enter config).threads.map (·.number) =
        s.calls / maxNested :: (List.range (s.calls / maxNested)).reverse := by
      rw [hthreads, List.map_cons, h.numbers, ← hnumber, ← hshare.1]
      rfl
    rw [hmap, hcalls, Nat.add_sub_cancel, List.range_succ, List.reverse_append]
    rfl
  case current =>
    rw [hthreads]
    simp [Thread.host, fresh, enter, hge]
  case position =>
    rw [hcalls, Nat.add_sub_cancel, hshare.1]
    simp only [enter, hge, if_false]
    unfold maxNested at *
    omega
  case hosts =>
    rw [hthreads, hcalls, List.forall_mem_cons]
    refine ⟨(Thread.hosts_empty _ hshare.2).host (Nat.zero_lt_succ _) rfl, fun thread hthread => ?_⟩
    refine (h.hosts thread hthread).aside ?_
    rcases List.mem_cons.mp (hs ▸ hthread) with rfl | hmem
    · omega
    · have hbelow := hothers thread hmem
      omega
  case names =>
    rw [hthreads, List.forall_mem_cons]
    exact ⟨fun _ => ⟨config, rfl⟩, h.names⟩

theorem enter (config : Config) : (s.enter config).Spread := by
  by_cases hlt : s.depth < maxNested
  · exact h.enter_of_lt config hlt
  · exact h.enter_of_ge config hlt

end Spread

/-- The second standing comes about on top of the first. -/
inductive Onto (w : Standing P V σ) : Standing P V σ → Prop where
  | refl : Onto w w
  | push {s : Standing P V σ} (h : Onto w s) (f : Frame P V σ) (hf : f.isNested = false) : Onto w (s.push f)
  | enter {s : Standing P V σ} (h : Onto w s) (config : Config) : Onto w (s.enter config)

namespace Onto

theorem trans {s'' : Standing P V σ} (h : Onto s s') (h' : Onto s' s'') : Onto s s'' := by
  induction h' with
  | refl => exact h
  | push _ f hf ih => exact ih.push f hf
  | enter _ config ih => exact ih.enter config

theorem stack (h : Onto w s) : w.stack <:+ s.stack := by
  induction h with
  | refl => exact List.suffix_rfl
  | push _ f hf ih => exact ih.trans (List.suffix_cons f _)
  | enter _ config ih =>
    rw [stack_enter]
    exact ih.trans (List.suffix_cons _ _)

/-- If a call begins, the frame of the first one keeps depth and thread of its caller. -/
theorem begins (h : Onto w s) : (s.calls = w.calls ∧ s.depth = w.depth ∧ s.thread = w.thread) ∨
    ∃ above st, s.stack = above ++ .nested w.depth w.thread :: st ∧ st.countP Frame.isNested = w.calls := by
  induction h with
  | refl => exact .inl ⟨rfl, rfl, rfl⟩
  | push _ f hf ih =>
    rcases ih with hnone | ⟨above, st, hst, hlevel⟩
    · exact .inl ⟨(calls_push hf).trans hnone.1, hnone.2⟩
    · exact .inr ⟨f :: above, st, congrArg (f :: ·) hst, hlevel⟩
  | @enter s _ config ih =>
    -- The first call of all: until now depth and thread were those of the beginning.
    rcases ih with ⟨hlevel, hdepth, hthread⟩ | ⟨above, st, hst, hlevel⟩
    · exact .inr ⟨[], s.stack, by rw [stack_enter, hdepth, hthread]; rfl, hlevel⟩
    · exact .inr ⟨_ :: above, st, by rw [stack_enter, hst]; rfl, hlevel⟩

/-- Where the topmost frame was put on the stack. -/
theorem uncover (h : Onto (start name) s) {st : List (Frame P V σ)} (hst : s.stack = f :: st) :
    (f.isNested = false ∧ Onto (start name) { s with stack := st }) ∨
      ∃ d t, f = .nested d t ∧ Onto (start name) ⟨st, d, t⟩ := by
  cases h with
  | refl => cases hst
  | push h f' hf =>
    obtain ⟨rfl, rfl⟩ := List.cons.inj hst
    exact .inl ⟨hf, h⟩
  | @enter s h config =>
    obtain ⟨rfl, rfl⟩ := List.cons.inj ((stack_enter s config).symm.trans hst)
    exact .inr ⟨_, _, rfl, h⟩

end Onto

end Standing

/-! ## What a step does to standings -/

/-- A routine goes on, takes a frame off its stack and goes on, or leaves a nested call. -/
inductive Routine.Shifts (r r' : Routine P V σ) : Prop where
  | on (h : r.standing.Onto r'.standing)
  | pops {s : Standing P V σ} {f : Frame P V σ} (hs : r.standing = s.push f) (hf : f.isNested = false)
    (h : s.Onto r'.standing)
  | leaves {o : Outcome V (Parcel V)} {d : Nat} {t : String} {st : List (Frame P V σ)}
    (hc : r.control = .returning o) (hst : r.stack = .nested d t :: st)
    (hc' : r'.control = .returning o) (h : r'.standing = ⟨st, d, t⟩)

namespace Machine

variable {code : P → Entry V → Code P V σ V} {m m' : Machine P V σ} {i j : RoutineId}
  {o : Outcome V (Parcel V)} {d : Nat} {t : String} {st : List (Frame P V σ)}

/-- A nested call hands its outcome on, and its caller goes on at its depth and on its thread. -/
theorem stepOf_nested (hc : (m.routine i).control = .returning o)
    (hst : (m.routine i).stack = .nested d t :: st) :
    m.stepOf code i = m.update i (·.restand ⟨st, d, t⟩) := by
  simp only [stepOf, hc, hst, unwind, reply, setControl, update_update]
  refine update_congr ?_
  simp only [Routine.restand, ← hc]

/-- The standings are one that came about on top of a given one, or on top of where a new routine begins. -/
def Rises (old : Nat) (w : RoutineId → Standing P V σ) (j : RoutineId) (s s' : Standing P V σ) : Prop :=
  s' = s ∧ (j.val < old → (w j).Onto s) ∧ (old ≤ j.val → ∃ name, Standing.Onto (.start name) s)

theorem steady_rises (old : Nat) (w : RoutineId → Standing P V σ) : Steady old (Rises old w) where
  push := by
    rintro j s _ f hf ⟨rfl, hold, hnew⟩
    exact ⟨rfl, fun hj => (hold hj).push f hf, fun hj => (hnew hj).imp fun _ h => h.push f hf⟩
  enter := by
    rintro j s _ config ⟨rfl, hold, hnew⟩
    exact ⟨rfl, fun hj => (hold hj).enter config, fun hj => (hnew hj).imp fun _ h => h.enter config⟩
  start name hj := ⟨rfl, fun hlt => by omega, fun _ => ⟨name, .refl⟩⟩

/-- A step that leaves no nested call puts frames on top of standings only, if a frame that is taken off is
taken off before. -/
theorem onto_stepOf (code : P → Entry V → Code P V σ V) {w : RoutineId → Standing P V σ}
    (hw : ∀ j, j.val < m.routines.size → (w j).Onto (m.routine j).standing)
    (hstack : ∀ o, (m.routine i).control = .returning o → (m.routine i).stack = [] ∨
      ∃ f st, f.isNested = false ∧ (m.routine i).stack = f :: st ∧
        (w i).Onto { (m.routine i).standing with stack := st }) (j : RoutineId) :
    (j.val < m.routines.size → (w j).Onto ((m.stepOf code i).routine j).standing) ∧
      (m.routines.size ≤ j.val → ∃ name, Standing.Onto (.start name) ((m.stepOf code i).routine j).standing) := by
  -- The machine is compared with itself: what is said of both standings is said of the one.
  have hsame : Match m.routines.size (Rises m.routines.size w) m m :=
    ⟨le_rfl, _, restand_self.symm, fun j hj => ⟨rfl, fun _ => hw j hj, fun hge => by omega⟩⟩
  have hafter : Match m.routines.size (Rises m.routines.size w) (m.stepOf code i) (m.stepOf code i) := by
    refine hsame.stepOf (steady_rises _ w) (fun _ _ => rfl) fun o hc => ?_
    have hi : i.val < m.routines.size := lt_of_isActive (by rw [hc]; rfl)
    refine (hstack o hc).imp (fun h => ⟨h, h⟩) ?_
    rintro ⟨f, st, hf, hst, honto⟩
    exact ⟨f, st, st, hf, hst, hst, rfl, fun _ => honto, fun hge => by omega⟩
  rcases Nat.lt_or_ge j.val (m.stepOf code i).routines.size with hj | hj
  · exact (hafter.standing hj).2
  · rw [routine_of_size_le hj]
    have hge := hafter.old_le.trans hj
    exact ⟨fun hlt => by omega, fun _ => ⟨"", .refl⟩⟩

/-- A step shifts routines, and those that are made stand where they begin. -/
theorem shifts_stepOf (code : P → Entry V → Code P V σ V) (m : Machine P V σ) (i j : RoutineId) :
    (j.val < m.routines.size → (m.routine j).Shifts ((m.stepOf code i).routine j)) ∧
      (m.routines.size ≤ j.val → ∃ name, Standing.Onto (.start name) ((m.stepOf code i).routine j).standing) := by
  by_cases htop : ∃ o f st, (m.routine i).control = .returning o ∧ (m.routine i).stack = f :: st
  · obtain ⟨o, f, st, hc, hst⟩ := htop
    cases hf : f.isNested with
    | true =>
      obtain ⟨d, t, rfl⟩ : ∃ d t, f = .nested d t := by
        cases f with
        | nested d t => exact ⟨d, t, rfl⟩
        | _ => cases hf
      rw [stepOf_nested hc hst]
      refine ⟨fun hj => ?_, fun hj => ?_⟩
      · by_cases hij : i = j
        · subst hij
          rw [routine_update_self hj]
          exact .leaves hc hst hc rfl
        · rw [routine_update_of_ne hij]
          exact .on .refl
      · rw [routine_of_size_le (by simpa using hj)]
        exact ⟨"", .refl⟩
    | false =>
      -- The step is one of the routine with the frame taken off.
      let taken : Standing P V σ := { (m.routine i).standing with stack := st }
      let w := Function.update (fun j => (m.routine j).standing) i taken
      have hself : w i = taken := Function.update_self ..
      have hstanding : (m.routine i).standing = taken.push f := by
        simp only [Routine.standing, Standing.push, taken, hst]
      obtain ⟨hold, hnew⟩ := onto_stepOf code (w := w) (i := i) (m := m)
        (fun j hj => by
          by_cases hij : j = i
          · subst hij
            rw [hself, hstanding]
            exact .push .refl f hf
          · rw [show w j = _ from Function.update_of_ne hij _ _]
            exact .refl)
        (fun _ _ => .inr ⟨f, st, hf, hst, hself ▸ .refl⟩) j
      refine ⟨fun hj => ?_, hnew⟩
      have honto := hold hj
      by_cases hij : j = i
      · subst hij
        rw [hself] at honto
        exact .pops hstanding hf honto
      · rw [show w j = _ from Function.update_of_ne hij _ _] at honto
        exact .on honto
  · obtain ⟨hold, hnew⟩ := onto_stepOf code (i := i) (m := m)
      (fun j _ => (.refl : (m.routine j).standing.Onto _))
      (fun o hc => by
        cases hst : (m.routine i).stack with
        | nil => exact .inl rfl
        | cons f st => exact absurd ⟨o, f, st, hc, hst⟩ htop) j
    exact ⟨fun hj => .on (hold hj), hnew⟩

/-- All routines stand where they can come from where they began. -/
def Grounded (m : Machine P V σ) : Prop := ∀ j, ∃ name, Standing.Onto (.start name) (m.routine j).standing

theorem Grounded.stepOf (h : m.Grounded) (i : RoutineId) : (m.stepOf code i).Grounded := by
  intro j
  obtain ⟨hold, hnew⟩ := shifts_stepOf code m i j
  rcases Nat.lt_or_ge j.val m.routines.size with hj | hj
  · obtain ⟨name, honto⟩ := h j
    cases hold hj with
    | on hon => exact ⟨name, honto.trans hon⟩
    | @pops s f hs hf hon =>
      -- The frame was put there after the routine began, so below it the way from the start is shorter.
      rcases honto.uncover (congrArg Standing.stack hs) with ⟨-, hbelow⟩ | ⟨d, t, rfl, -⟩
      · rw [hs] at hbelow
        exact ⟨name, hbelow.trans hon⟩
      · cases hf
    | leaves hc hst hc' heq =>
      rcases honto.uncover hst with ⟨hf, -⟩ | ⟨d, t, hf, hbelow⟩
      · cases hf
      · obtain ⟨rfl, rfl⟩ := Frame.nested.inj hf
        exact ⟨name, heq ▸ hbelow⟩
  · exact hnew hj

end Machine

end OneShot
