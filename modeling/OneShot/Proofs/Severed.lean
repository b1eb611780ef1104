import OneShot.Proofs.Lifecycle

/-!
# Bodies that cannot be resumed

A way to resume a body is kept in a place, or a routine carries it, or the value of another scope is
meant for the body. `Sound.offers_unique` says that only one routine brings a given way to resume.

When the last way to resume a body is dropped, it is `Severed`, and stays so in every step
(`Sound.severed_step`): it never runs again, unless it is told that it was given up.
-/

namespace OneShot

variable {P V σ : Type}

namespace Machine

variable {code : P → Entry V → Code P V σ V} {m m' : Machine P V σ} {i j s t : RoutineId} {y : Key}
  {hand : List Key}

/-! ## Who carries a way to resume -/

theorem CarriedBy.lt (h : m.CarriedBy j y) : j.val < m.routines.size := by
  by_contra hge
  rw [CarriedBy, routine_of_size_le (Nat.le_of_not_lt hge)] at h
  rcases h with h | h <;> cases h

theorem CarriedBy.tokens_pos (h : m.CarriedBy j y) : 0 < (m.routine j).tokens y := by
  unfold Routine.tokens
  rcases h with hy | hy
  · have hmem : y ∈ (m.routine j).keys := List.mem_append_left _ hy
    have hpos := List.count_pos_iff.2 hmem
    omega
  · rw [hy]
    simp only [Option.toList_some, List.count_singleton_self]
    omega

/-- Only one routine brings a way to resume. -/
theorem Sound.offers_unique (h : m.Sound) (hj : m.Offers j y) (ht : m.Offers t y) : j = t := by
  by_contra hne
  have hsingle : m.tokens none y ≤ 1 := by
    have hs := h.counted.single y.scope
    obtain ⟨q, s⟩ := y
    cases q <;> simp only [countKeys_nil] at hs ⊢ <;> omega
  -- Each of the two routines counts for one.
  let f : RoutineId → Nat := fun l => (m.known none l).tokens y
  let g : RoutineId → Nat := fun l => if l = j then 0 else f l
  have hfj : 0 < f j := hj.carriedBy.tokens_pos
  have hgt : 0 < g t := by
    show 0 < if t = j then 0 else f t
    rw [if_neg (Ne.symm hne)]
    exact ht.carriedBy.tokens_pos
  have hgj : g j = 0 := if_pos rfl
  have hsum : sumTo m.routines.size f + g j = sumTo m.routines.size g + f j :=
    sumTo_add hj.carriedBy.lt fun l hl => (if_neg hl).symm
  have hle := le_sumTo g ht.carriedBy.lt
  have htokens : m.tokens none y = sumTo m.routines.size f + m.kept.count y := rfl
  omega

/-- The body can be resumed for which a way to resume is carried. -/
theorem Sound.waits_of_carriedBy (h : m.Sound) (hj : m.CarriedBy j y) : m.Waits y := by
  refine h.counted.waits y ?_
  have hle := le_sumTo (fun l => (m.known none l).tokens y) hj.lt
  have hpos : 0 < (m.known none j).tokens y := hj.tokens_pos
  unfold tokens
  omega

theorem Sound.waits_of_offers (h : m.Sound) (hj : m.Offers j y) : m.Waits y :=
  h.waits_of_carriedBy hj.carriedBy

/-! ## Bodies without a way to resume them -/

/-- There is no way to resume a body. -/
structure Severed (m : Machine P V σ) (s : RoutineId) : Prop where
  carries : ∀ q, ¬ m.Carries ⟨q, s⟩
  into : ∀ z, (m.routine z).into? ≠ some s
  status : (m.routine s).status ≠ .running

theorem Severed.not_offers (h : m.Severed s) (q : Mark) (j : RoutineId) : ¬ m.Offers j ⟨q, s⟩ :=
  fun hj => h.carries q (.inr ⟨j, hj.carriedBy⟩)

/-- A body that cannot be resumed does not come to run, and does not wait after a step of its own. -/
theorem Severed.status_step (hsevered : m.Severed s) (h : m.Sound) (hs : (m.routine s).scope.isSome)
    (hi : (m.routine i).control.isActive = true) (hf : m.Follows i m') :
    (m'.routine s).status ≠ .running ∧ (s = i → (m'.routine s).status ≠ .suspending) := by
  have hphase := h.linked.phase s hs
  by_cases hsi : s = i
  · subst hsi
    have hterminal : (m'.routine s).status.isTerminal = true := by
      cases hf.influences.moves hs with
      | on hslots _ =>
        rw [show (m'.routine s).status = (m.routine s).status from congrArg Prod.fst hslots]
        cases hst : (m.routine s).status with
        | notRunning => exact absurd hst hphase.begun
        | running => exact absurd hst hsevered.status
        | suspending =>
          exact absurd (hphase.suspending hst).2.2.1 (Control.ne_reading_of_isActive hi s)
        | _ => rfl
      | suspended hrunning _ => exact absurd hrunning hsevered.status
      | atEnd o _ hending => exact hending ▸ terminal_ending o (m.routine s).status
    constructor
    · rintro heq
      rw [heq] at hterminal
      cases hterminal
    · rintro - heq
      rw [heq] at hterminal
      cases hterminal
  · refine ⟨fun hrunning => hsevered.status ?_, fun heq => absurd heq hsi⟩
    cases hf.influences.touches s hsi (lt_of_scope hs) with
    | rests hrests =>
      cases hrests with
      | spared hslots _ => exact (congrArg Prod.fst hslots).symm.trans hrunning
      | closed _ _ hslots _ => cases (congrArg Prod.fst hslots).symm.trans hrunning
    | resumed b _ hfrom _ _ _ =>
      rcases hfrom with ⟨q, hq⟩ | ⟨z, -, -, hz, -⟩
      · exact absurd hq (hsevered.carries q)
      · exact absurd hz (hsevered.into z)
    | told _ _ _ hslots _ => exact (congrArg Prod.fst hslots).symm.trans hrunning
    | eased hslots _ => exact (congrArg Prod.fst (hslots hs)).symm.trans hrunning

/-- A body that cannot be resumed can still not be resumed after a step. -/
theorem Sound.severed_step (h : m.Sound) (hstep : m.step code = some m')
    (hs : (m.routine s).scope.isSome) (hsevered : m.Severed s) : m'.Severed s := by
  obtain ⟨x, -, -, ⟨hx, -, hf⟩ | ⟨-, rfl⟩⟩ := h.step_cases hstep
  case inr => exact ⟨hsevered.carries, hsevered.into, hsevered.status⟩
  obtain ⟨hrunning, hself⟩ := hsevered.status_step h hs hx hf
  refine ⟨?_, fun z hz => ?_, hrunning⟩
  · rintro q (hkept | ⟨j, hj⟩)
    · exact hsevered.carries q (hf.influences.kept _ hkept)
    · rcases hf.influences.carried j _ hj with hold | hsx
      · exact hsevered.carries q hold
      · exact hself hsx ((h.step hstep).waits_of_carriedBy hj).2.1
  · rcases Nat.lt_or_ge z.val m.routines.size with hz' | hge
    · by_cases hzx : z = x
      · exact hsevered.into z (hzx ▸ hf.influences.own.into (hzx ▸ hz))
      · exact hsevered.into z ((hf.influences.abides z hzx hz').into hz)
    · have hsome : (m'.routine z).scope.isSome := by
        obtain ⟨c, hc, -⟩ := Option.bind_eq_some_iff.1 hz
        rw [hc]
        rfl
      exact hsevered.carries .result ((hf.influences.opened z hge hsome).2 s hz)

theorem CarriedBy.of_fades (hf : (m.routine j).Fades (m'.routine j)) (h : m'.CarriedBy j y) :
    m.CarriedBy j y := by
  have hrests := Routine.Rests.of_fades hf
  rcases h with hkeys | hpending
  · rcases hrests.keys with heq | heq
    · exact .inl (heq ▸ hkeys)
    · rw [heq] at hkeys
      cases hkeys
  · unfold Routine.pending? at hpending
    rw [hf.stack] at hpending
    rcases hrests.need? with heq | heq
    · rw [heq] at hpending
      exact .inr hpending
    · rw [heq] at hpending
      cases hpending

/-- The way to resume a body that is in hand is the only one: none is kept, no other routine carries
one, and no scope gives its value to the body. -/
theorem AtWork.sole (h : m.AtWork i hand [] []) (hy : y ∈ hand) :
    (∀ q, ⟨q, y.scope⟩ ∉ m.kept) ∧ (∀ q j, j ≠ i → ¬ m.CarriedBy j ⟨q, y.scope⟩) ∧
      ∀ z, (m.routine z).into? ≠ some y.scope := by
  have hnone : ∀ q, m.tokens (some i) ⟨q, y.scope⟩ = 0 := by
    have hsingle := h.counted.single y.scope
    have hpos : 0 < countKeys y.scope hand :=
      Nat.lt_of_lt_of_le (List.count_pos_iff.2 hy) (count_le_countKeys y hand)
    intro q
    cases q <;> omega
  have hzero : ∀ q j, j.val < m.routines.size → (m.known (some i) j).tokens ⟨q, y.scope⟩ = 0 := by
    intro q j hj
    have hle := le_sumTo (fun l => (m.known (some i) l).tokens ⟨q, y.scope⟩) hj
    have hq := hnone q
    unfold tokens at hq
    omega
  refine ⟨fun q hmem => ?_, fun q j hji hj => ?_, fun z hz => ?_⟩
  · have hpos := List.count_pos_iff.2 hmem
    have hq := hnone q
    unfold tokens at hq
    omega
  · have hpos := hj.tokens_pos
    have hz := hzero q j hj.lt
    rw [known_of_ne (by simpa using Ne.symm hji)] at hz
    omega
  · have hlt : z.val < m.routines.size := by
      obtain ⟨c, hc, -⟩ := Option.bind_eq_some_iff.1 hz
      exact lt_of_scope (by rw [hc]; rfl)
    have hz' := hzero .result z hlt
    have hinto : (m.known (some i) z).into? = some y.scope := by
      unfold known
      split <;> exact hz
    simp [Routine.tokens, Routine.keys, hinto] at hz'

/-- A body cannot be resumed any more when the way to resume it is dropped, and the routine fails that
had it in hand. -/
theorem AtWork.severed (h : m.AtWork i hand [] []) (hfades : m.Fades m') (hy : y ∈ hand) (f : Failure) :
    (m'.fail i f).Severed y.scope := by
  obtain ⟨hnotKept, hnotCarried, hnotInto⟩ := h.sole hy
  have hi : i.val < m'.routines.size := hfades.size ▸ h.lt
  have hself : (m'.fail i f).routine i = { m'.routine i with control := .returning (.failure f) } :=
    routine_update_self hi _
  have hother : ∀ j, j ≠ i → (m'.fail i f).routine j = m'.routine j := fun j hj =>
    routine_update_of_ne (Ne.symm hj) _
  refine ⟨?_, fun z hz => hnotInto z ?_, ?_⟩
  · rintro q (hkept | ⟨j, hj⟩)
    · have hconts : (m'.fail i f).conts = m.conts := hfades.conts
      rw [kept, hconts] at hkept
      exact hnotKept q hkept
    · by_cases hji : j = i
      · subst hji
        unfold CarriedBy Routine.pending? at hj
        rw [hself] at hj
        rcases hj with hj | hj <;> cases hj
      · refine hnotCarried q j hji (CarriedBy.of_fades (hfades.routine j) ?_)
        unfold CarriedBy at hj ⊢
        rwa [hother j hji] at hj
  · refine (hfades.routine z).abides.into ?_
    by_cases hzi : z = i
    · subst hzi
      rw [hself] at hz
      exact hz
    · rwa [hother z hzi] at hz
  · have hwaits : m.Waits y := h.counted.waits y (by have := List.count_pos_iff.2 hy; omega)
    have hsi : y.scope ≠ i := by
      intro heq
      exact h.linked.not_waits (heq ▸ h.active) hwaits
    rw [hother _ hsi]
    intro hrunning
    cases Routine.Rests.of_fades (hfades.routine y.scope) with
    | spared hslots _ =>
      have hsame : (m'.routine y.scope).status = (m.routine y.scope).status := congrArg Prod.fst hslots
      rw [hsame, hwaits.2.1] at hrunning
      cases hrunning
    | closed _ _ hslots _ => cases (congrArg Prod.fst hslots).symm.trans hrunning

theorem Severed.congr (hr : ∀ j, m'.routine j = m.routine j) (hconts : m'.conts = m.conts)
    (h : m.Severed s) : m'.Severed s := by
  refine ⟨fun q hq => h.carries q ?_, fun z => ?_, ?_⟩
  · simpa only [Carries, CarriedBy, kept, hr, hconts] using hq
  · rw [hr]
    exact h.into z
  · rw [hr]
    exact h.status

end Machine

end OneShot
