import OneShot.Proofs.Fates

/-!
# Withdrawals and pushes side by side

A push adds at the newest end, and a withdrawal looks for its item from the oldest end on. So a withdrawal
finds the same item with a new one on top as without it, unless the new one is the first that is equal: the
two commute (`Registry.erase_push`). `Registry.trace_interleaves` says what follows for a sequence of
withdrawals and a sequence of pushes that are carried out side by side: however they take turns, the registry
ends as if all withdrawals had come first.
-/

namespace OneShot

variable {α : Type}

/-- The third list consists of the members of the other two, which take turns and keep their order. -/
inductive Interleaves : List α → List α → List α → Prop where
  | nil : Interleaves [] [] []
  | left {x : α} {xs ys zs : List α} (h : Interleaves xs ys zs) : Interleaves (x :: xs) ys (x :: zs)
  | right {y : α} {xs ys zs : List α} (h : Interleaves xs ys zs) : Interleaves xs (y :: ys) (y :: zs)

namespace Registry

variable [BEq α] {x y : α} {pushed erased : List α}

/-- A withdrawal does not see a new item that differs from the one it looks for. -/
theorem erase_push (r : Registry α) (h : (x == y) = false) : (r.push x).erase y = (r.erase y).push x := by
  have hkept : [x].eraseP (· == y) = [x] := List.eraseP_of_forall_not (by simp [h])
  -- In the order of age the new item comes last.
  have hlast : (r.items.reverse ++ [x]).erase y = r.items.reverse.erase y ++ [x] := by
    simp only [List.erase_eq_eraseP', List.eraseP_append]
    split
    · rfl
    · next hnone =>
      rw [hkept, List.eraseP_of_forall_not fun z hz hzy => hnone (List.any_eq_true.2 ⟨z, hz, hzy⟩)]
  simp only [erase, push, List.reverse_cons, hlast, List.reverse_append, List.reverse_nil, List.nil_append,
    List.singleton_append]

theorem after_cons (r : Registry α) (op : Op α) (ops : List (Op α)) :
    r.after (op :: ops) = (r.apply op).2.after ops := rfl

/-- No withdrawal sees a new item that differs from all items they look for. -/
theorem after_erase_push (r : Registry α) (h : ∀ y ∈ erased, (x == y) = false) :
    (r.push x).after (erased.map .erase) = (r.after (erased.map .erase)).push x := by
  induction erased generalizing r with
  | nil => rfl
  | cons y erased ih =>
    obtain ⟨hy, herased⟩ := List.forall_mem_cons.1 h
    rw [List.map_cons, after_cons, after_cons, apply, apply, erase_push r hy, ih _ herased]

/-- Pushes put their items on top, the last one uppermost. -/
theorem items_after_push (r : Registry α) (pushed : List α) :
    (r.after (pushed.map .push)).items = pushed.reverse ++ r.items := by
  induction pushed generalizing r with
  | nil => rfl
  | cons x pushed ih =>
    rw [List.map_cons, after_cons, ih, apply, items_push, List.reverse_cons, List.append_assoc,
      List.singleton_append]

/-- However withdrawals and pushes take turns, the withdrawals might as well come first. -/
theorem after_interleaves {ops : List (Op α)} (h : Interleaves (erased.map .erase) (pushed.map .push) ops)
    (hne : ∀ x ∈ pushed, ∀ y ∈ erased, (x == y) = false) (r : Registry α) :
    r.after ops = (r.after (erased.map .erase)).after (pushed.map .push) := by
  generalize hes : erased.map Op.erase = es at h
  generalize hps : pushed.map Op.push = ps at h
  induction h generalizing erased pushed r with
  | nil => rfl
  | @left op es ps ops _ ih =>
    obtain ⟨y, erased, rfl, rfl, rfl⟩ := List.map_eq_cons_iff.1 hes
    have hrest : ∀ x ∈ pushed, ∀ z ∈ erased, (x == z) = false :=
      fun x hx z hz => hne x hx z (List.mem_cons_of_mem y hz)
    rw [after_cons, after_cons, ih hrest _ rfl hps]
  | @right op es ps ops _ ih =>
    obtain ⟨x, pushed, rfl, rfl, rfl⟩ := List.map_eq_cons_iff.1 hps
    obtain ⟨hx, hrest⟩ := List.forall_mem_cons.1 hne
    subst hes
    rw [after_cons, after_cons, ih hrest _ rfl rfl]
    -- The item was pushed before the withdrawals that are still to come.
    exact congrArg (after · (pushed.map .push)) (after_erase_push r hx)

/-- If no pushed item is equal to a withdrawn one, a sequence of withdrawals and a sequence of pushes end with
the same registry however they take turns: with what the withdrawals alone leave, and the pushed items on top
of it in the order of the pushes. -/
theorem trace_interleaves {ops : List (Op α)} (h : Interleaves (erased.map .erase) (pushed.map .push) ops)
    (hne : ∀ x ∈ pushed, ∀ y ∈ erased, (x == y) = false) (r : Registry α) :
    (r.trace ops).2.items = pushed.reverse ++ (r.trace (erased.map .erase)).2.items := by
  rw [trace_snd, trace_snd, after_interleaves h hne, items_after_push]

/-- Two pushes among three withdrawals. -/
def takesTurns : List (Op (Numbered Nat)) :=
  [.push ⟨4, 7⟩, .erase ⟨6, 1⟩, .erase ⟨6, 3⟩, .push ⟨5, 8⟩, .erase ⟨6, 1⟩]

/-- Of four items three are equal. One of them is withdrawn twice, and so is something that is not there, while
two items are pushed, one of them equal to one that stays: the two oldest ones are gone. -/
theorem trace_interleaves_numbered :
    Interleaves (([⟨6, 1⟩, ⟨6, 3⟩, ⟨6, 1⟩] : List (Numbered Nat)).map Op.erase)
      (([⟨4, 7⟩, ⟨5, 8⟩] : List (Numbered Nat)).map Op.push) takesTurns ∧
    ((⟨[⟨3, 1⟩, ⟨2, 7⟩, ⟨1, 1⟩, ⟨0, 1⟩]⟩ : Registry (Numbered Nat)).trace takesTurns).2.items =
      [⟨5, 8⟩, ⟨4, 7⟩, ⟨3, 1⟩, ⟨2, 7⟩] := by
  have hturns : Interleaves (([⟨6, 1⟩, ⟨6, 3⟩, ⟨6, 1⟩] : List (Numbered Nat)).map Op.erase)
      (([⟨4, 7⟩, ⟨5, 8⟩] : List (Numbered Nat)).map Op.push) takesTurns :=
    .right (.left (.left (.right (.left .nil))))
  exact ⟨hturns, trace_interleaves hturns (by decide) _⟩

end Registry

end OneShot
