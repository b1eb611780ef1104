import Mathlib.Logic.ExistsUnique
import Mathlib.Tactic.ByContra
import OneShot.Registry

/-!
# What becomes of the items of a registry

Items that are equal need not be the same, so each pushed item is given the number of the operation that pushed
it. The numbers change nothing: `Registry.kept` runs the operations on numbered items, and
`Registry.forget_kept` says that forgetting the numbers gives the registry itself.

`Registry.Does` says which item an operation removes. `Registry.accounts` says that operations do this, that
what is left is in the order of the pushes, and that each pushed item has exactly one `Fate`.
-/

namespace OneShot.Registry

variable {α β : Type}

/-- An item with the number of the operation that pushed it. -/
structure Numbered (α : Type) where
  number : Nat
  item : α

/-- Numbered items are equal if the items are. -/
instance [BEq α] : BEq (Numbered α) := ⟨fun x y => x.item == y.item⟩

/-- The operation on numbered items. -/
def Op.numbered (n : Nat) : Op α → Op (Numbered α)
  | .push x => .push ⟨n, x⟩
  | .pop => .pop
  | .popWhere p => .popWhere fun x => p x.item
  | .erase x => .erase ⟨n, x⟩
  | .isEmpty => .isEmpty

/-- The registry without the numbers of its items. -/
def forget (r : Registry (Numbered α)) : Registry α := ⟨r.items.map (·.item)⟩

/-- The answer without the number of its item. -/
def Answer.forget : Answer (Numbered α) → Answer α
  | .done => .done
  | .taken x => .taken (x.map (·.item))
  | .emptiness b => .emptiness b

/-- What an operation does with the items that are left, the newest first: its answer, and what is left then. -/
inductive Does [BEq α] (n : Nat) : Op α → List (Numbered α) → Answer α → List (Numbered α) → Prop where
  | push (x : α) (left : List (Numbered α)) : Does n (.push x) left .done (⟨n, x⟩ :: left)
  | pop (x : Numbered α) (older : List (Numbered α)) : Does n .pop (x :: older) (.taken (some x.item)) older
  | popNothing : Does n .pop [] (.taken none) []
  /-- The newest item that satisfies the test is taken. -/
  | popWhere {p : α → Bool} {x : Numbered α} {newer : List (Numbered α)} (older : List (Numbered α))
    (hx : p x.item = true) (hnewer : ∀ y ∈ newer, p y.item = false) :
    Does n (.popWhere p) (newer ++ x :: older) (.taken (some x.item)) (newer ++ older)
  | popWhereNothing {p : α → Bool} {left : List (Numbered α)} (hleft : ∀ y ∈ left, p y.item = false) :
    Does n (.popWhere p) left (.taken none) left
  /-- The oldest item that is equal is withdrawn. -/
  | erase {x : α} {y : Numbered α} (newer : List (Numbered α)) {older : List (Numbered α)}
    (hy : (y.item == x) = true) (holder : ∀ z ∈ older, (z.item == x) = false) :
    Does n (.erase x) (newer ++ y :: older) .done (newer ++ older)
  | eraseNothing {x : α} {left : List (Numbered α)} (hleft : ∀ y ∈ left, (y.item == x) = false) :
    Does n (.erase x) left .done left
  | isEmpty (left : List (Numbered α)) : Does n .isEmpty left (.emptiness left.isEmpty) left

section Runs

variable [BEq α]

/-- What is left of numbered items after the first `t` operations. -/
def kept (ops : List (Op α)) : Nat → Registry (Numbered α)
  | 0 => empty
  | t + 1 =>
    match ops[t]? with
    | some op => ((kept ops t).apply (op.numbered t)).2
    | none => kept ops t

/-! ## The numbers change nothing -/

theorem apply_forget (n : Nat) (op : Op α) (r : Registry (Numbered α)) :
    r.forget.apply op = ((r.apply (op.numbered n)).1.forget, (r.apply (op.numbered n)).2.forget) := by
  cases op with
  | push x => rfl
  | pop =>
    obtain ⟨items⟩ := r
    cases items <;> rfl
  | popWhere p => simp [apply, Op.numbered, popWhere, forget, Answer.forget, List.eraseP_map, Function.comp_def]
  | erase x =>
    simp only [apply, Op.numbered, erase, forget, Answer.forget, List.erase_eq_eraseP', ← List.map_reverse,
      List.eraseP_map]
    rfl
  | isEmpty => simp [apply, Op.numbered, isEmpty, forget, Answer.forget]

/-- The registry after operations. -/
def after (r : Registry α) (ops : List (Op α)) : Registry α := ops.foldl (fun r op => (r.apply op).2) r

theorem trace_snd (ops : List (Op α)) (r : Registry α) : (r.trace ops).2 = r.after ops := by
  induction ops generalizing r with
  | nil => rfl
  | cons op ops ih => exact ih (r.apply op).2

theorem trace_fst (ops : List (Op α)) (r : Registry α) (t : Nat) :
    (r.trace ops).1[t]? = ops[t]?.map fun op =>
      (((r.after (ops.take t)).apply op).1, ((r.after (ops.take t)).apply op).2.size) := by
  induction ops generalizing r t with
  | nil => rfl
  | cons op ops ih =>
    cases t with
    | zero => rfl
    | succ t => exact ih (r.apply op).2 t

theorem after_take_succ {ops : List (Op α)} {t : Nat} {op : Op α} (hop : ops[t]? = some op) (r : Registry α) :
    r.after (ops.take (t + 1)) = ((r.after (ops.take t)).apply op).2 := by
  simp [after, List.take_add_one, hop]

/-- Forgetting the numbers gives the registry itself. -/
theorem forget_kept (ops : List (Op α)) (t : Nat) : (kept ops t).forget = empty.after (ops.take t) := by
  induction t with
  | zero => rfl
  | succ t ih =>
    rw [kept]
    cases hop : ops[t]? with
    | none =>
      rw [List.take_add_one, hop]
      simpa using ih
    | some op => rw [after_take_succ hop, ← ih, apply_forget t]

/-! ## One operation -/

/-- The list without its first element that satisfies a test: there is none, or the elements before it do not
satisfy the test. -/
theorem eraseP_cases (p : β → Bool) (l : List β) :
    (∀ y ∈ l, p y = false) ∧ l.find? p = none ∧ l.eraseP p = l ∨
      ∃ first x rest, l = first ++ x :: rest ∧ p x = true ∧ (∀ y ∈ first, p y = false) ∧ l.find? p = some x ∧
        l.eraseP p = first ++ rest := by
  cases hfind : l.find? p with
  | none =>
    have hnone : ∀ y ∈ l, p y = false := fun y hy => by simpa using List.find?_eq_none.1 hfind y hy
    exact .inl ⟨hnone, rfl, List.eraseP_of_forall_not fun y hy => by simp [hnone y hy]⟩
  | some x =>
    obtain ⟨hx, first, rest, rfl, hfirst⟩ := List.find?_eq_some_iff_append.1 hfind
    have hnone : ∀ y ∈ first, p y = false := fun y hy => by simpa using hfirst y hy
    refine .inr ⟨first, x, rest, rfl, hx, hnone, rfl, ?_⟩
    rw [List.eraseP_append_right _ fun y hy => by simp [hnone y hy], List.eraseP_cons_of_pos hx]

/-- Each operation does what it should. -/
theorem does_apply (n : Nat) (op : Op α) (r : Registry (Numbered α)) :
    Does n op r.items (r.apply (op.numbered n)).1.forget (r.apply (op.numbered n)).2.items := by
  obtain ⟨items⟩ := r
  cases op with
  | push x => exact .push x items
  | pop =>
    cases items with
    | nil => exact .popNothing
    | cons x older => exact .pop x older
  | popWhere p =>
    simp only [apply, Op.numbered, popWhere, Answer.forget]
    rcases eraseP_cases (fun x : Numbered α => p x.item) items with
      ⟨hnone, hfind, herase⟩ | ⟨newer, x, older, rfl, hx, hnewer, hfind, herase⟩
    · rw [hfind, herase]
      exact .popWhereNothing hnone
    · rw [hfind, herase]
      exact .popWhere older hx hnewer
  | erase x =>
    simp only [apply, Op.numbered, erase, Answer.forget, List.erase_eq_eraseP']
    -- The oldest item comes first when the items are looked at the other way round.
    rcases eraseP_cases (· == ⟨n, x⟩) items.reverse with
      ⟨hnone, -, herase⟩ | ⟨older, y, newer, hitems, hy, holder, -, herase⟩
    · rw [herase, List.reverse_reverse]
      exact .eraseNothing fun y hy => hnone y (List.mem_reverse.2 hy)
    · obtain rfl : items = newer.reverse ++ y :: older.reverse := by
        rw [← items.reverse_reverse, hitems]
        simp
      rw [herase, List.reverse_append]
      exact .erase newer.reverse hy fun z hz => holder z (List.mem_reverse.1 hz)
  | isEmpty => exact .isEmpty items

variable {n : Nat} {op : Op α} {left left' : List (Numbered α)} {answer : Answer α}

/-- An operation pushes one item, or leaves items as they were and where they were. -/
theorem Does.sublist_or_push (h : Does n op left answer left') :
    left'.Sublist left ∨ ∃ x, op = .push x ∧ left' = ⟨n, x⟩ :: left := by
  cases h with
  | push x => exact .inr ⟨x, rfl, rfl⟩
  | pop => exact .inl (List.sublist_cons_self _ _)
  | popNothing => exact .inl (.refl _)
  | popWhere => exact .inl ((List.sublist_cons_self _ _).append_left _)
  | popWhereNothing => exact .inl (.refl _)
  | erase newer => exact .inl ((List.sublist_cons_self _ _).append_left newer)
  | eraseNothing => exact .inl (.refl _)
  | isEmpty => exact .inl (.refl _)

/-- An item that is left no more was the one that the operation took, or the one that it withdrew. -/
theorem Does.of_removed (h : Does n op left answer left') {x : Numbered α} (hx : x ∈ left) (hx' : x ∉ left') :
    answer = .taken (some x.item) ∨ answer = .done ∧ ∃ y, op = .erase y := by
  cases h with
  | push y => exact absurd (List.mem_cons_of_mem _ hx) hx'
  | pop y older =>
    rcases List.mem_cons.1 hx with rfl | hx
    · exact .inl rfl
    · exact absurd hx hx'
  | popNothing => cases hx
  | @popWhere _ y newer older _ _ =>
    obtain rfl : x = y := by grind
    exact .inl rfl
  | popWhereNothing => exact absurd hx hx'
  | erase => exact .inr ⟨rfl, _, rfl⟩
  | eraseNothing => exact absurd hx hx'
  | isEmpty => exact absurd hx hx'

/-! ## All operations -/

variable {ops : List (Op α)} {s t : Nat} {x : Numbered α}

theorem does_kept (hop : ops[t]? = some op) :
    Does t op (kept ops t).items ((empty.after (ops.take t)).apply op).1 (kept ops (t + 1)).items := by
  rw [← forget_kept, apply_forget t, kept, hop]
  exact does_apply t op (kept ops t)

/-- What is left is in the order of the pushes, and each item is the one that was pushed then. -/
theorem kept_spec (ops : List (Op α)) (t : Nat) :
    (kept ops t).items.Pairwise (fun x y => y.number < x.number) ∧
      ∀ x ∈ (kept ops t).items, x.number < t ∧ ops[x.number]? = some (.push x.item) := by
  induction t with
  | zero => exact ⟨.nil, fun x hx => by cases hx⟩
  | succ t ih =>
    obtain ⟨hsorted, hpushed⟩ := ih
    have hearlier : ∀ x ∈ (kept ops t).items, x.number < t + 1 ∧ ops[x.number]? = some (.push x.item) :=
      fun x hx => ⟨Nat.lt_succ_of_lt (hpushed x hx).1, (hpushed x hx).2⟩
    cases hop : ops[t]? with
    | none =>
      rw [kept, hop]
      exact ⟨hsorted, hearlier⟩
    | some op =>
      rcases (does_kept hop).sublist_or_push with hsub | ⟨a, rfl, heq⟩
      · exact ⟨hsorted.sublist hsub, fun x hx => hearlier x (hsub.subset hx)⟩
      · -- The new item has the number of the operation, which is above all numbers before.
        rw [heq]
        exact ⟨.cons (fun x hx => (hpushed x hx).1) hsorted,
          List.forall_mem_cons.2 ⟨⟨t.lt_succ_self, hop⟩, hearlier⟩⟩

/-- An item that is not left is not left later, unless it was not pushed yet. -/
theorem notMem_kept_of_le (hpushed : x.number < s) (hgone : x ∉ (kept ops s).items) (hst : s ≤ t) :
    x ∉ (kept ops t).items := by
  induction hst with
  | refl => exact hgone
  | @step t hst ih =>
    cases hop : ops[t]? with
    | none =>
      rw [kept, hop]
      exact ih
    | some op =>
      rcases (does_kept hop).sublist_or_push with hsub | ⟨a, -, heq⟩
      · exact fun hx => ih (hsub.subset hx)
      · rw [heq]
        rintro (_ | ⟨_, hx⟩)
        -- What is pushed later has another number.
        · exact absurd hpushed (Nat.not_lt.2 hst)
        · exact ih hx

/-- Operation number `t` removes the item. -/
def Removes (ops : List (Op α)) (t : Nat) (x : Numbered α) : Prop :=
  x ∈ (kept ops t).items ∧ x ∉ (kept ops (t + 1)).items

theorem Removes.unique (h : Removes ops s x) (h' : Removes ops t x) : s = t := by
  have hle : ∀ {s t}, Removes ops s x → Removes ops t x → t ≤ s := by
    intro s t h h'
    -- Once removed it does not come back, so it cannot be removed later.
    by_contra hlt
    have hpushed : x.number < s + 1 := Nat.lt_succ_of_lt ((kept_spec ops s).2 x h.1).1
    exact notMem_kept_of_le hpushed h.2 (Nat.lt_of_not_le hlt) h'.1
  exact Nat.le_antisymm (hle h' h) (hle h h')

/-- An item that was left and is left no more was removed in between. -/
theorem exists_removes (hst : s ≤ t) (hs : x ∈ (kept ops s).items) (ht : x ∉ (kept ops t).items) :
    ∃ u, Removes ops u x := by
  induction hst with
  | refl => exact absurd hs ht
  | @step t _ ih =>
    by_cases hx : x ∈ (kept ops t).items
    · exact ⟨t, hx, ht⟩
    · exact ih hx

/-- What becomes of an item: it is left, or one operation takes or withdraws it. -/
inductive Fate where
  | left
  | taken (t : Nat)
  | withdrawn (t : Nat)

/-- The item has the fate under operations on an empty registry. -/
def HasFate (ops : List (Op α)) (x : Numbered α) : Fate → Prop
  | .left => x ∈ (kept ops ops.length).items
  | .taken t => Removes ops t x ∧ ∃ size, (empty.trace ops).1[t]? = some (.taken (some x.item), size)
  | .withdrawn t => Removes ops t x ∧ ∃ y, ops[t]? = some (.erase y)

/-- What the registry shows of an operation. -/
theorem trace_eq (hop : ops[t]? = some op) :
    (empty.trace ops).1[t]? =
      some (((empty.after (ops.take t)).apply op).1, (kept ops (t + 1)).items.length) := by
  have hsize : ((empty.after (ops.take t)).apply op).2.size = (kept ops (t + 1)).items.length := by
    rw [← after_take_succ hop, ← forget_kept, forget, size, List.length_map]
  rw [trace_fst, hop, Option.map_some, hsize]

theorem Removes.exists_op (h : Removes ops t x) : ∃ op, ops[t]? = some op := by
  cases hop : ops[t]? with
  | none =>
    obtain ⟨hx, hx'⟩ := h
    rw [kept, hop] at hx'
    exact absurd hx hx'
  | some op => exact ⟨op, rfl⟩

/-- Who removes an item takes it or withdraws it, and does not do both. -/
theorem Removes.hasFate (h : Removes ops t x) :
    HasFate ops x (.taken t) ∧ ¬ HasFate ops x (.withdrawn t) ∨
      HasFate ops x (.withdrawn t) ∧ ¬ HasFate ops x (.taken t) := by
  obtain ⟨op, hop⟩ := h.exists_op
  have hdoes := does_kept hop
  have htrace := trace_eq hop
  rcases hdoes.of_removed h.1 h.2 with hanswer | ⟨hanswer, y, rfl⟩
  · rw [hanswer] at htrace
    refine .inl ⟨⟨h, _, htrace⟩, ?_⟩
    rintro ⟨-, y, hy⟩
    obtain rfl : op = .erase y := by simpa using hop.symm.trans hy
    cases hanswer
  · rw [hanswer] at htrace
    refine .inr ⟨⟨h, y, hop⟩, ?_⟩
    rintro ⟨-, size, hsize⟩
    cases htrace.symm.trans hsize

/-- A pushed item has exactly one fate. -/
theorem existsUnique_fate {a : α} (hpush : ops[n]? = some (.push a)) : ∃! fate, HasFate ops ⟨n, a⟩ fate := by
  have hstart : (⟨n, a⟩ : Numbered α) ∈ (kept ops (n + 1)).items := by
    rw [kept, hpush]
    exact List.mem_cons_self
  have hlt : n < ops.length := (List.getElem?_eq_some_iff.1 hpush).1
  by_cases hleft : (⟨n, a⟩ : Numbered α) ∈ (kept ops ops.length).items
  · have hkept : ∀ t, ¬ Removes ops t ⟨n, a⟩ := by
      intro t ht
      obtain ⟨op, hop⟩ := ht.exists_op
      have htlt : t < ops.length := (List.getElem?_eq_some_iff.1 hop).1
      have hpushed : n < t + 1 := Nat.lt_succ_of_lt ((kept_spec ops t).2 _ ht.1).1
      exact notMem_kept_of_le hpushed ht.2 htlt hleft
    refine ⟨.left, hleft, ?_⟩
    rintro (_ | t | t) hfate
    · rfl
    · exact absurd hfate.1 (hkept t)
    · exact absurd hfate.1 (hkept t)
  · obtain ⟨t, ht⟩ := exists_removes hlt hstart hleft
    rcases ht.hasFate with ⟨hfate, hnot⟩ | ⟨hfate, hnot⟩
    · refine ⟨.taken t, hfate, ?_⟩
      rintro (_ | u | u) hu
      · exact absurd hu hleft
      · rw [hu.1.unique ht]
      · exact absurd (hu.1.unique ht ▸ hu) hnot
    · refine ⟨.withdrawn t, hfate, ?_⟩
      rintro (_ | u | u) hu
      · exact absurd hu hleft
      · exact absurd (hu.1.unique ht ▸ hu) hnot
      · rw [hu.1.unique ht]

/-- Operations on an empty registry account for its items. At any time, what is left is in the order of the
pushes, and each item is one that was pushed. Each operation does what it should with what is left, and shows
its answer and how many items are left then. In the end the registry consists of what is left. Each pushed item
is left, or was taken by one operation, or was withdrawn by one operation, and only one of the three. -/
theorem accounts (ops : List (Op α)) :
    (∀ t, (kept ops t).items.Pairwise (fun x y => y.number < x.number) ∧
      ∀ x ∈ (kept ops t).items, x.number < t ∧ ops[x.number]? = some (.push x.item)) ∧
    (∀ t op, ops[t]? = some op → ∃ answer,
      (empty.trace ops).1[t]? = some (answer, (kept ops (t + 1)).items.length) ∧
        Does t op (kept ops t).items answer (kept ops (t + 1)).items) ∧
    (empty.trace ops).2.items = (kept ops ops.length).items.map (·.item) ∧
    ∀ n a, ops[n]? = some (.push a) → ∃! fate, HasFate ops ⟨n, a⟩ fate := by
  refine ⟨kept_spec ops, fun t op hop => ⟨_, trace_eq hop, does_kept hop⟩, ?_, fun n a => existsUnique_fate⟩
  have hlast := forget_kept ops ops.length
  rw [List.take_length, ← trace_snd] at hlast
  rw [← hlast, forget]

end Runs

/-- Equal items are pushed, one is withdrawn and one is taken: the older one is withdrawn. -/
example : (empty.trace [.push 1, .push (2 : Nat), .push 1, .erase 1, .popWhere (· < 2), .pop, .pop]).1 =
    [(.done, 1), (.done, 2), (.done, 3), (.done, 2), (.taken (some 1), 1), (.taken (some 2), 0),
      (.taken none, 0)] := by
  decide

end OneShot.Registry
