import OneShot.Proofs.Fair

/-!
# Frames that hand an outcome on

Most frames give the outcome that they take to the frame below, as it is or in another form. Meanwhile
they may let go of scopes, and drop a continuation. `Frame.handsOn?` says what a frame hands on, and
`Sound.handsOn` what else happens in such a step: nothing but that scopes are given up which nobody
holds any more.
-/

namespace OneShot

variable {P V σ : Type}

/-- Whether an outcome ends code early. -/
def Outcome.isAbrupt {α : Type} : Outcome V α → Bool
  | .value _ => false
  | .failure _ | .panic _ => true

/-- The outcome that a frame gives to the frame below it, if it does no more than that. -/
def Frame.handsOn? : Frame P V σ → Outcome V (Parcel V) → Option (Outcome V (Parcel V))
  | .registered _ _, o | .nested _ _, o | .holding _, o | .owning _, o => some o
  | .performing, .value (.boxed (.datum v)) => some (.value (.plain v))
  | .forwarding _, .value (.boxed (.result v)) => some (.value (.plain v))
  | .forwarding e, .failure .noResumePoint => some (.failure (.unhandledEffect e))
  | .handledBody, .value (.plain v) => some (.value (.signal (.done (.datum v))))
  | .rejoining, .value (.plain v) => some (.value (.signal (.done (.result v))))
  | .next _, _ | .canceling _, _ | _, .value _ => none
  | _, o => some o

namespace Machine

variable {code : P → Entry V → Code P V σ V} {m m' : Machine P V σ} {i j s : RoutineId}
  {o o' : Outcome V (Parcel V)} {f : Frame P V σ} {st : List (Frame P V σ)}

/-- From the first machine to the second, routine `i` gives outcome `o` to the frames `st`, which stood
below frame `f`. -/
structure HandsOn (m m' : Machine P V σ) (i : RoutineId) (f : Frame P V σ)
    (o : Outcome V (Parcel V)) (st : List (Frame P V σ)) : Prop where
  own : ∃ n d t, m'.routine i = { (m.routine i).withHolders n with
    control := .returning o, stack := st, depth := d, thread := t }
  others : ∀ l, l ≠ i → (m.routine l).Fades (m'.routine l)
  size : m'.routines.size = m.routines.size
  store : m'.store = m.store
  places : ∀ k, m'.conts.getD k.val none = m.conts.getD k.val none ∨ f = .owning k

theorem HandsOn.control (h : m.HandsOn m' i f o st) : (m'.routine i).control = .returning o := by
  obtain ⟨n, d, t, hr⟩ := h.own
  rw [hr]

theorem HandsOn.stack (h : m.HandsOn m' i f o st) : (m'.routine i).stack = st := by
  obtain ⟨n, d, t, hr⟩ := h.own
  rw [hr]

/-- The other places stay as they are when a continuation is taken out of one. -/
theorem conts_takeCont_of_ne {k k' : ContId} (hk : k ≠ k') :
    (m.takeCont k).2.conts.getD k'.val none = m.conts.getD k'.val none := by
  have hne : k.val ≠ k'.val := fun heq => hk (congrArg ContId.mk heq)
  unfold takeCont Array.getD
  simp only [Array.size_setIfInBounds]
  split
  · next hlt => exact Array.getElem_setIfInBounds_ne hlt hne
  · rfl

/-- A routine that has taken a frame off and let scopes go replies. -/
theorem Sound.handsOn_reply (h : m.Sound) (hc : (m.routine i).control = .returning o) (d : Nat)
    (t : String)
    (hself : Routine.Fades { m.routine i with stack := st, depth := d, thread := t } (m'.routine i))
    (hothers : ∀ l, l ≠ i → (m.routine l).Fades (m'.routine l))
    (hsize : m'.routines.size = m.routines.size) (hstore : m'.store = m.store)
    (hplaces : ∀ k : ContId, m'.conts.getD k.val none = m.conts.getD k.val none ∨ f = .owning k) :
    m.HandsOn (m'.reply i o') i f o' st := by
  have hactive : (m.routine i).control.isActive = true := by rw [hc]; rfl
  have hi := lt_of_isActive hactive
  have hr : (m'.reply i o').routine i = { m'.routine i with control := .returning o' } :=
    routine_update_self (by rw [hsize]; exact hi) _
  refine ⟨?_, fun l hl => ?_, (size_update ..).trans hsize, hstore, hplaces⟩
  · rw [hr]
    generalize m'.routine i = r' at hself
    cases hself with
    | kept n _ => exact ⟨n, d, t, rfl⟩
    | closed hsuspending hsome =>
      -- A body that makes a step is not suspended.
      exact absurd ((h.linked.phase i hsome).suspending hsuspending).2.2.1
        (Control.ne_reading_of_isActive hactive i)
  · rw [reply, setControl, routine_update_of_ne (Ne.symm hl)]
    exact hothers l hl

/-- The depth and the thread stay, but for a nested call. -/
theorem Sound.handsOn_popped (h : m.Sound) (hc : (m.routine i).control = .returning o)
    (hfades : ∀ l, ((m.update i fun r => { r with stack := st }).routine l).Fades (m'.routine l))
    (hsize : m'.routines.size = m.routines.size) (hstore : m'.store = m.store)
    (hplaces : ∀ k : ContId, m'.conts.getD k.val none = m.conts.getD k.val none ∨ f = .owning k) :
    m.HandsOn (m'.reply i o') i f o' st := by
  have hi : i.val < m.routines.size := lt_of_ne_ended (by simp [hc])
  refine h.handsOn_reply hc (m.routine i).depth (m.routine i).thread ?_ (fun l hl => ?_) hsize
    hstore hplaces
  · have hself := hfades i
    rwa [routine_update_self hi] at hself
  · have hother := hfades l
    rwa [routine_update_of_ne (Ne.symm hl)] at hother

/-- What a step does in which a frame hands an outcome on. -/
theorem Sound.handsOn (h : m.Sound) (hc : (m.routine i).control = .returning o)
    (hst : (m.routine i).stack = f :: st) (hf : f.handsOn? o = some o') :
    m.HandsOn (m.stepOf code i) i f o' st := by
  have hi : i.val < m.routines.size := lt_of_ne_ended (by simp [hc])
  have hfits : Fits (m.routine i).role o (f :: st) := by
    have hp := h.linked.posture i (by simp)
    simpa only [Routine.Posture, hc, hst] using hp
  -- Most frames do nothing but reply.
  have hreply : ∀ o'' : Outcome V (Parcel V),
      m.HandsOn ((m.update i fun r => { r with stack := st }).reply i o'') i f o'' st := fun o'' =>
    h.handsOn_popped hc (fun l => .refl _) (size_update ..) rfl fun k => .inl rfl
  rw [stepOf_returning hc hst]
  cases f with
  | registered p s =>
    obtain rfl : o = o' := Option.some.inj hf
    refine h.handsOn_popped hc (fun l => ?_) (by simp) (by cases p <;> rfl) fun k =>
      .inl (by cases p <;> rfl)
    rw [routine_setRegistry]
    exact .refl _
  | nested d t =>
    obtain rfl : o = o' := Option.some.inj hf
    refine h.handsOn_reply hc d t ?_ (fun l hl => ?_) (by simp) rfl fun k => .inl rfl
    · rw [routine_update_self (by simpa using hi), routine_update_self hi]
      exact .refl _
    · rw [routine_update_of_ne (Ne.symm hl), routine_update_of_ne (Ne.symm hl)]
      exact .refl _
  | holding s =>
    obtain rfl : o = o' := Option.some.inj hf
    have hwork := h.worksPlain hc hfits.1.signal?_eq_none hst (by simp)
    have hfades := (hwork.atWork.popHolding hst).letGo.2
    exact h.handsOn_popped hc hfades.routine (hfades.size.trans (size_update ..)) hfades.store
      fun k => .inl (by rw [hfades.conts]; rfl)
  | owning k =>
    obtain rfl : o = o' := Option.some.inj hf
    have hwork := h.worksPlain hc hfits.1.signal?_eq_none hst (by simp)
    have hfades := ((hwork.atWork.popOwning hst).releaseAt k).2
    refine h.handsOn_popped hc hfades.routine (hfades.size.trans (size_update ..)) hfades.store
      fun k' => ?_
    by_cases hk : k = k'
    · exact .inr (by rw [hk])
    · exact .inl (by rw [hfades.conts, conts_takeCont_of_ne hk]; rfl)
  | next k => cases hf
  | canceling a => cases hf
  | _ =>
    -- The frame replies with an outcome of its own, or passes an abrupt one on.
    cases o with
    | value a =>
      cases a with
      | boxed b => cases b <;> cases hf <;> exact hreply _
      | _ => cases hf <;> exact hreply _
    | failure g => cases g <;> cases hf <;> exact hreply _
    | panic p => cases hf; exact hreply _

/-- An abrupt outcome is handed on as it is. -/
theorem handsOn?_of_isAbrupt (ho : o.isAbrupt = true) {d : Nat} {t : String} :
    (∀ p s, (Frame.registered p s : Frame P V σ).handsOn? o = some o) ∧
      (∀ s, (Frame.dispatch s : Frame P V σ).handsOn? o = some o) ∧
      (Frame.nested d t : Frame P V σ).handsOn? o = some o ∧
      ∀ s, (Frame.holding s : Frame P V σ).handsOn? o = some o := by
  cases o with
  | value a => cases ho
  | failure g => exact ⟨fun _ _ => rfl, fun _ => rfl, rfl, fun _ => rfl⟩
  | panic p => exact ⟨fun _ _ => rfl, fun _ => rfl, rfl, fun _ => rfl⟩

end Machine

end OneShot
