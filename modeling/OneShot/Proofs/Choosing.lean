import Mathlib.Data.Prod.Lex
import Mathlib.Order.Bounds.Basic
import OneShot.Arms

/-!
# Which arm takes an error

Arms are set up one after the other: `Addition` is one step of this. An arm *meets* a chain at the depth of
the first link that it accepts. `Arms.select_setUp` says which arm takes an error: of all pairs of the depth at
which an arm meets the chain and the arm's position, the lexicographically least one decides. Where no arm
meets the chain, the last `orElse` does. Giving up a walk at the depth of the best arm so far changes nothing.
-/

namespace OneShot

variable {α : Type}

namespace Arms

/-! ## Setting arms up -/

/-- One step of setting arms up. -/
inductive Addition (α : Type) where
  | on (m : Matcher) (a : α)
  | orElse (a : α)

namespace Addition

/-- The arm that a step adds to those for certain errors. -/
def arm? : Addition α → Option (Matcher × α)
  | on m a => some (m, a)
  | orElse _ => none

/-- The arm that a step sets for all other errors. -/
def otherwise? : Addition α → Option α
  | on _ _ => none
  | orElse a => some a

end Addition

/-- Carries out one step. -/
def add (h : Arms α) : Addition α → Arms α
  | .on m a => h.on m a
  | .orElse a => h.orElse a

/-- The arms after the given steps. -/
def setUp (adds : List (Addition α)) : Arms α := adds.foldl add empty

theorem arms_setUp (adds : List (Addition α)) : (setUp adds).arms = adds.filterMap Addition.arm? := by
  have hfold : ∀ h : Arms α, (adds.foldl add h).arms = h.arms ++ adds.filterMap Addition.arm? := by
    induction adds with
    | nil => simp
    | cons x adds ih =>
      intro h
      cases x with
      | on m a => simp [ih, add, on, Addition.arm?]
      | orElse a => exact ih (h.orElse a)
  exact hfold empty

theorem otherwise_setUp (adds : List (Addition α)) :
    (setUp adds).otherwise = (adds.filterMap Addition.otherwise?).getLast? := by
  have hfold : ∀ h : Arms α, (adds.foldl add h).otherwise =
      ((adds.filterMap Addition.otherwise?).getLast?).or h.otherwise := by
    induction adds with
    | nil => simp
    | cons x adds ih =>
      intro h
      cases x with
      | on m a => simp [ih, add, on, Addition.otherwise?]
      | orElse a => simp [ih, add, orElse, Addition.otherwise?, List.getLast?_cons]
  rw [setUp, hfold]
  exact Option.or_none

/-! ## Depths and positions -/

/-- The depths at which arms meet a chain, each with the position of the arm. -/
def meets (arms : List (Matcher × α)) (chain : List Cause) : Set (Nat ×ₗ Nat) :=
  {x | ∃ arm, arms[(ofLex x).2]? = some arm ∧ chain.findIdx? arm.1.accepts = some (ofLex x).1}

variable {arms done : List (Matcher × α)} {chain : List Cause} {best : Option (Nat × α)} {d i : Nat} {a : α}
  {m : Matcher}

theorem mem_meets :
    toLex (d, i) ∈ meets arms chain ↔ ∃ arm, arms[i]? = some arm ∧ chain.findIdx? arm.1.accepts = some d :=
  Iff.rfl

theorem isLeast_meets :
    IsLeast (meets arms chain) (toLex (d, i)) ↔ toLex (d, i) ∈ meets arms chain ∧
      ∀ d' i', toLex (d', i') ∈ meets arms chain → d < d' ∨ d = d' ∧ i ≤ i' :=
  and_congr_right fun _ =>
    ⟨fun h _ _ hx => Prod.Lex.toLex_le_toLex.1 (h hx), fun h _ hx => Prod.Lex.toLex_le_toLex.2 (h _ _ hx)⟩

theorem meets_eq_empty (h : ∀ arm ∈ arms, ∀ link ∈ chain, arm.1.accepts link = false) :
    meets arms chain = ∅ := by
  refine Set.eq_empty_iff_forall_notMem.2 fun x hx => ?_
  obtain ⟨arm, harm, hd⟩ := hx
  have hnone : chain.findIdx? arm.1.accepts = none :=
    List.findIdx?_eq_none_iff.2 fun link hlink => h arm (List.mem_of_getElem? harm) link hlink
  cases hnone.symm.trans hd

theorem meets_nonempty (h : ∃ arm ∈ arms, ∃ link ∈ chain, arm.1.accepts link = true) :
    (meets arms chain).Nonempty := by
  obtain ⟨arm, harm, link, hlink, haccepts⟩ := h
  obtain ⟨i, hi⟩ := List.mem_iff_getElem?.1 harm
  have hsome : (chain.findIdx? arm.1.accepts).isSome = true := by
    rw [List.findIdx?_isSome]
    exact List.any_eq_true.2 ⟨link, hlink, haccepts⟩
  obtain ⟨d, hd⟩ := Option.isSome_iff_exists.1 hsome
  exact ⟨toLex (d, i), arm, hi, hd⟩

/-- One arm more adds at most one pair, at the next position. -/
theorem mem_meets_append (arm : Matcher × α) :
    toLex (d, i) ∈ meets (done ++ [arm]) chain ↔
      toLex (d, i) ∈ meets done chain ∨ i = done.length ∧ chain.findIdx? arm.1.accepts = some d := by
  simp only [mem_meets]
  rcases Nat.lt_trichotomy i done.length with hlt | rfl | hgt
  · simp [List.getElem?_append_left hlt, hlt.ne]
  · simp
  · have hout : (done ++ [arm])[i]? = none := List.getElem?_eq_none (by simp; omega)
    have hdone : done[i]? = none := List.getElem?_eq_none hgt.le
    simp [hout, hdone, hgt.ne']

/-! ## The walk -/

/-- A walk that gives up at a depth finds what a walk to the end finds, if it is above that depth. -/
theorem firstDepth_eq (m : Matcher) (limit : Option Nat) (depth : Nat) (chain : List Cause) :
    firstDepth m limit depth chain =
      ((chain.findIdx? m.accepts).map (· + depth)).filter fun d => limit.all (d < ·) := by
  induction chain generalizing depth with
  | nil => rfl
  | cons c chain ih =>
    rw [firstDepth, List.findIdx?_cons]
    by_cases hlimit : limit.any (· ≤ depth) = true
    · -- Everything from here on is too deep.
      obtain ⟨l, rfl, hl⟩ : ∃ l, limit = some l ∧ l ≤ depth := by
        cases limit with
        | none => cases hlimit
        | some l => exact ⟨l, rfl, by simpa using hlimit⟩
      rw [if_pos hlimit]
      symm
      simp only [Option.filter_eq_none_iff, Option.map_eq_some_iff, Option.all_some, decide_eq_true_eq,
        not_lt, forall_exists_index, and_imp]
      rintro d d' - rfl
      omega
    · have hall : limit.all (depth < ·) = true := by
        cases limit with
        | none => rfl
        | some l => simpa using hlimit
      rw [if_neg hlimit]
      by_cases haccepts : m.accepts c = true
      · simp [haccepts, Option.filter_some, hall]
      · have hshift : (fun n => n + 1 + depth) = fun n => n + (depth + 1) := by
          funext n
          omega
        simp [haccepts, ih, Function.comp_def, hshift]

/-- What is known of the best arm among those that were looked at: its pair is the least one, or there is
none. -/
def IsBest (arms : List (Matcher × α)) (chain : List Cause) : Option (Nat × α) → Prop
  | none => meets arms chain = ∅
  | some (d, a) => ∃ i m, arms[i]? = some (m, a) ∧ IsLeast (meets arms chain) (toLex (d, i))

/-- The least pair stays the least one if the next arm adds nothing below it. -/
theorem IsBest.stays (h : IsBest done chain best)
    (hnone : firstDepth m (best.map (·.1)) 0 chain = none) : IsBest (done ++ [(m, a)]) chain best := by
  simp only [firstDepth_eq, Option.filter_eq_none_iff, Nat.add_zero, Option.map_id'] at hnone
  cases best with
  | none =>
    refine Set.eq_empty_iff_forall_notMem.2 fun x hx => ?_
    rcases (mem_meets_append (m, a)).1 hx with hx | ⟨-, hd⟩
    · exact Set.eq_empty_iff_forall_notMem.1 h x hx
    · exact hnone _ hd rfl
  | some x =>
    obtain ⟨i, m', hi, hleast⟩ := h
    obtain ⟨hmem, hleast⟩ := isLeast_meets.1 hleast
    have hlt : i < done.length := (List.getElem?_eq_some_iff.1 hi).1
    refine ⟨i, m', by rw [List.getElem?_append_left hlt, hi], isLeast_meets.2
      ⟨(mem_meets_append (m, a)).2 (.inl hmem), fun d' i' hy => ?_⟩⟩
    rcases (mem_meets_append (m, a)).1 hy with hy | ⟨hpos, hd⟩
    · exact hleast d' i' hy
    · -- The next arm comes later, so it would have to meet the chain further up.
      have hle : x.1 ≤ d' := by simpa using hnone d' hd
      omega

/-- An arm that meets the chain above all others is the best one. -/
theorem IsBest.moves (h : IsBest done chain best)
    (hsome : firstDepth m (best.map (·.1)) 0 chain = some d) :
    IsBest (done ++ [(m, a)]) chain (some (d, a)) := by
  simp only [firstDepth_eq, Nat.add_zero, Option.map_id', Option.filter_eq_some_iff] at hsome
  obtain ⟨hd, habove⟩ := hsome
  refine ⟨done.length, m, by simp, isLeast_meets.2
    ⟨(mem_meets_append (m, a)).2 (.inr ⟨rfl, hd⟩), fun d' i' hy => ?_⟩⟩
  rcases (mem_meets_append (m, a)).1 hy with hy | ⟨hpos, hd'⟩
  · cases best with
    | none => exact absurd hy (Set.eq_empty_iff_forall_notMem.1 h _)
    | some x =>
      -- The best pair until now was above all others, and this one is above it.
      obtain ⟨i, m', -, hleast⟩ := h
      have hx : d < x.1 := by simpa using habove
      have hle := (isLeast_meets.1 hleast).2 d' i' hy
      omega
  · obtain rfl : d = d' := by simpa using hd.symm.trans hd'
    exact .inr ⟨rfl, hpos.ge⟩

/-- Going through arms keeps the best one. -/
theorem IsBest.closest (h : IsBest done chain best) (arms : List (Matcher × α)) :
    IsBest (done ++ arms) chain (closest chain best arms) := by
  -- The arms that were looked at are part of the statement, since positions count from the first one.
  induction arms generalizing done best with
  | nil => simpa [Arms.closest] using h
  | cons arm arms ih =>
    obtain ⟨m, a⟩ := arm
    rw [Arms.closest, List.append_cons]
    split
    · next d hd => exact ih (h.moves hd)
    · next hd => exact ih (h.stays hd)

/-! ## Without giving up -/

/-- Goes through arms, and walks to the first accepted link for each of them. -/
def closestOfAll (chain : List Cause) : Option (Nat × α) → List (Matcher × α) → Option (Nat × α)
  | best, [] => best
  | best, (m, a) :: rest =>
    match chain.findIdx? m.accepts with
    | some depth =>
      closestOfAll chain (if best.all (depth < ·.1) then some (depth, a) else best) rest
    | none => closestOfAll chain best rest

/-- A walk that is given up would not have found a better arm. -/
theorem closest_eq_closestOfAll (chain : List Cause) (best : Option (Nat × α)) (arms : List (Matcher × α)) :
    closest chain best arms = closestOfAll chain best arms := by
  induction arms generalizing best with
  | nil => rfl
  | cons arm arms ih =>
    obtain ⟨m, a⟩ := arm
    have hlimit : ∀ d, (best.map (·.1)).all (d < ·) = best.all (d < ·.1) := by
      intro d
      cases best <;> rfl
    rw [closest, closestOfAll, firstDepth_eq]
    cases chain.findIdx? m.accepts with
    | none => exact ih best
    | some d =>
      simp only [Option.map_some, Nat.add_zero, Option.filter_some, hlimit]
      by_cases hd : best.all (d < ·.1) = true
      · simp only [hd, if_true]
        exact ih _
      · simp only [hd]
        exact ih _

/-- Of all pairs of the depth at which an arm meets the chain of an error and the arm's position, the
lexicographically least one decides which arm takes the error. If no arm meets the chain, the last arm for all
other errors takes it, if there is one. That a walk is given up makes no difference. -/
theorem select_setUp (adds : List (Addition α)) (c : Cause) :
    ((∃ arm ∈ adds.filterMap Addition.arm?, ∃ link ∈ c.chain, arm.1.accepts link = true) →
      ∃ d i arm, (adds.filterMap Addition.arm?)[i]? = some arm ∧
        IsLeast (meets (adds.filterMap Addition.arm?) c.chain) (toLex (d, i)) ∧
        (setUp adds).select c = some arm.2) ∧
    ((∀ arm ∈ adds.filterMap Addition.arm?, ∀ link ∈ c.chain, arm.1.accepts link = false) →
      (setUp adds).select c = (adds.filterMap Addition.otherwise?).getLast?) ∧
    (setUp adds).select c =
      ((closestOfAll c.chain none (setUp adds).arms).map (·.2)).or (setUp adds).otherwise := by
  have hnothing : IsBest ([] : List (Matcher × α)) c.chain none := meets_eq_empty (List.forall_mem_nil _)
  have hbest := hnothing.closest (setUp adds).arms
  rw [List.nil_append] at hbest
  simp only [← arms_setUp, ← otherwise_setUp]
  refine ⟨fun hsome => ?_, fun hnone => ?_, ?_⟩
  · cases hclosest : closest c.chain none (setUp adds).arms with
    | none =>
      rw [hclosest] at hbest
      exact absurd hbest (meets_nonempty hsome).ne_empty
    | some x =>
      rw [hclosest] at hbest
      obtain ⟨i, m, hi, hleast⟩ := hbest
      exact ⟨x.1, i, (m, x.2), hi, hleast, by simp [select, hclosest]⟩
  · cases hclosest : closest c.chain none (setUp adds).arms with
    | none => simp [select, hclosest]
    | some x =>
      rw [hclosest] at hbest
      obtain ⟨i, m, -, hmem, -⟩ := hbest
      rw [meets_eq_empty hnone] at hmem
      cases hmem
  · rw [select, closest_eq_closestOfAll]

end Arms

/-! ## Errors that are carried -/

/-- The error, carried by `n` failures, one inside of the other. -/
def Cause.carried (x : Cause) : Nat → Cause
  | 0 => x
  | n + 1 => .failure (.body (x.carried n))

/-- However often an error is carried, its sources are seen, but not the error itself. -/
theorem Cause.sources_carried (x : Cause) (n : Nat) : (x.carried n).sources = x.sources := by
  induction n with
  | zero => rfl
  | succ n ih => rw [carried, sources, Failure.sources, ih]

mutual

theorem Failure.sources_eq_chain {f : Failure} {s : Cause} (h : f.sources.head? = some s) :
    f.sources = s.chain := by
  cases f with
  | spawn reason =>
    obtain rfl : Cause.plain Kind.other reason = s := by simpa [Failure.sources] using h
    rfl
  | body x =>
    rw [Failure.sources] at h ⊢
    exact Cause.sources_eq_chain h
  | _ => simp [Failure.sources] at h

/-- What comes after an error is the chain of its immediate source. -/
theorem Cause.sources_eq_chain {x s : Cause} (h : x.sources.head? = some s) : x.sources = s.chain := by
  cases x with
  | plain kind message => simp [Cause.sources] at h
  | caused kind message source =>
    obtain rfl : source = s := by simpa [Cause.sources] using h
    rfl
  | failure f =>
    rw [Cause.sources] at h ⊢
    exact Failure.sources_eq_chain h

end

namespace Arms

/-- The arm for a chain of errors. -/
def selectAmong (h : Arms α) (chain : List Cause) : Option α :=
  ((closest chain none h.arms).map (·.2)).or h.otherwise

/-- A link that no arm accepts makes no difference to the choice. -/
theorem selectAmong_cons {h : Arms α} {link : Cause} (chain : List Cause)
    (hlink : ∀ arm ∈ h.arms, arm.1.accepts link = false) :
    h.selectAmong (link :: chain) = h.selectAmong chain := by
  -- All depths are one more, and the choice compares depths only.
  have hshift : ∀ (arms : List (Matcher × α)) (best : Option (Nat × α)),
      (∀ arm ∈ arms, arm.1.accepts link = false) →
      closestOfAll (link :: chain) (best.map fun x => (x.1 + 1, x.2)) arms =
        (closestOfAll chain best arms).map fun x => (x.1 + 1, x.2) := by
    intro arms
    induction arms with
    | nil => exact fun _ _ => rfl
    | cons arm arms ih =>
      intro best hnone
      obtain ⟨m, a⟩ := arm
      obtain ⟨hm, harms⟩ := List.forall_mem_cons.1 hnone
      rw [closestOfAll, closestOfAll, List.findIdx?_cons, hm]
      cases chain.findIdx? m.accepts with
      | none => exact ih best harms
      | some d =>
        have hall : (best.map fun x => (x.1 + 1, x.2)).all (d + 1 < ·.1) = best.all (d < ·.1) := by
          cases best <;> simp
        have hbest : (if best.all (d < ·.1) then some (d + 1, a) else best.map fun x => (x.1 + 1, x.2)) =
            (if best.all (d < ·.1) then some (d, a) else best).map fun x => (x.1 + 1, x.2) := by
          split <;> rfl
        simp only [Bool.false_eq_true, if_false, Option.map_some, hall, hbest]
        exact ih _ harms
  have hclosest := hshift h.arms none hlink
  simp only [Option.map_none] at hclosest
  rw [selectAmong, selectAmong, closest_eq_closestOfAll, closest_eq_closestOfAll, hclosest, Option.map_map]
  rfl

/-- Among arms of which none takes failures of the library, an error that is carried is not seen: the choice
is that for the error's immediate source, or, if nothing caused the error, the arm for all other errors. So it is
the choice for the error itself if no arm accepts that. -/
theorem select_carried {h : Arms α} (hfailure : ∀ arm ∈ h.arms, arm.1 ≠ .failure) (x : Cause) {n : Nat}
    (hn : 1 ≤ n) :
    (∀ s, x.sources.head? = some s → h.select (x.carried n) = h.select s) ∧
      (x.sources = [] → h.select (x.carried n) = h.otherwise) ∧
      ((∀ arm ∈ h.arms, arm.1.accepts x = false) → h.select (x.carried n) = h.select x) := by
  obtain ⟨n, rfl⟩ := Nat.exists_eq_add_of_le' hn
  have hunseen : h.select (x.carried (n + 1)) = h.selectAmong x.sources := by
    -- The carried error stands for itself in its chain; after it come the sources of what it carries.
    have hchain : (x.carried (n + 1)).chain = x.carried (n + 1) :: x.sources :=
      congrArg _ (x.sources_carried (n + 1))
    rw [select, hchain]
    refine selectAmong_cons x.sources fun arm harm => ?_
    cases hm : arm.1 with
    | kind k => rfl
    | failure => exact absurd hm (hfailure arm harm)
  rw [hunseen]
  refine ⟨fun s hs => ?_, fun hnone => ?_, fun hx => ?_⟩
  · rw [Cause.sources_eq_chain hs]
    rfl
  · rw [hnone, selectAmong, closest_eq_closestOfAll]
    have hnothing : ∀ arms : List (Matcher × α), closestOfAll [] none arms = none := by
      intro arms
      induction arms with
      | nil => rfl
      | cons arm arms ih => exact ih
    rw [hnothing]
    rfl
  · exact (selectAmong_cons x.sources hx).symm

/-- An arm takes an error, and does not take it any more when it is carried; the cause of the error is seen. -/
theorem select_carried_caused :
    let h := (empty.on (.kind ⟨"A"⟩) 1).on (.kind ⟨"B"⟩) 2
    let x := Cause.caused ⟨"A"⟩ "a" (.plain ⟨"B"⟩ "b")
    (∀ arm ∈ h.arms, arm.1 ≠ .failure) ∧ x.sources.head? = some (.plain ⟨"B"⟩ "b") ∧
      h.select x = some 1 ∧ h.select (x.carried 3) = some 2 := by
  refine ⟨by decide, rfl, rfl, ?_⟩
  rw [(select_carried (by decide) _ (by decide)).1 (.plain ⟨"B"⟩ "b") rfl]
  rfl

/-- An error that an arm of its own kind takes is not taken when it is carried. -/
theorem exists_carried_not_taken : ∃ (h : Arms Nat) (x : Cause) (n : Nat), 1 ≤ n ∧
    (∀ arm ∈ h.arms, arm.1 ≠ .failure) ∧ h.select x = some 1 ∧ h.select (x.carried n) = none :=
  ⟨empty.on (.kind ⟨"A"⟩) 1, .plain ⟨"A"⟩ "a", 1, by decide, by decide, rfl, rfl⟩

end Arms

end OneShot
