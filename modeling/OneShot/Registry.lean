/-!
# Registries

A registry keeps items in the order in which they came. The newest item is the one taken first:
`pop` takes the newest, `popWhere` the newest that satisfies a test. `erase` withdraws the *oldest*
item equal to a given one. Items may be equal without being the same, so the two ends matter.

The lemmas below say what each operation does to `items`, the list of what is left.
-/

namespace OneShot

/-- Items that wait to be taken. -/
structure Registry (α : Type) where
  /-- What is left, the newest item first. -/
  items : List α
deriving DecidableEq, Repr

namespace Registry

variable {α : Type}

/-- The registry without items. -/
def empty : Registry α := ⟨[]⟩

instance : Inhabited (Registry α) := ⟨empty⟩

/-- Adds an item as the newest one. -/
def push (r : Registry α) (x : α) : Registry α := ⟨x :: r.items⟩

/-- Takes the newest item. -/
def pop (r : Registry α) : Option α × Registry α := (r.items.head?, ⟨r.items.tail⟩)

/-- Takes the newest item that satisfies `p`. -/
def popWhere (r : Registry α) (p : α → Bool) : Option α × Registry α :=
  (r.items.find? p, ⟨r.items.eraseP p⟩)

/-- Withdraws the oldest item equal to `x`, if there is one. -/
def erase [BEq α] (r : Registry α) (x : α) : Registry α :=
  ⟨(r.items.reverse.erase x).reverse⟩

/-- How many items are left. -/
def size (r : Registry α) : Nat := r.items.length

/-- Whether no item is left. -/
def isEmpty (r : Registry α) : Bool := r.items.isEmpty

@[simp] theorem items_empty : (empty : Registry α).items = [] := rfl

@[simp] theorem items_push (r : Registry α) (x : α) : (r.push x).items = x :: r.items := rfl

@[simp] theorem items_popWhere (r : Registry α) (p : α → Bool) :
    (r.popWhere p).2.items = r.items.eraseP p := rfl

/-- Without an item that satisfies the test, nothing is taken. -/
theorem popWhere_of_forall {r : Registry α} {p : α → Bool} (h : ∀ x ∈ r.items, p x = false) :
    r.popWhere p = (none, r) := by
  have hfind : r.items.find? p = none := List.find?_eq_none.2 fun x hx => by simp [h x hx]
  have herase : r.items.eraseP p = r.items := List.eraseP_of_forall_not fun x hx => by simp [h x hx]
  simp [popWhere, hfind, herase]

/-- Without an item equal to `x`, nothing is withdrawn. -/
theorem erase_of_notMem [BEq α] [LawfulBEq α] {r : Registry α} {x : α} (h : x ∉ r.items) :
    r.erase x = r := by
  have hrev : x ∉ r.items.reverse := by simpa using h
  rw [erase, List.erase_of_not_mem hrev, List.reverse_reverse]

/-- Taking one `x` out of a list leaves the other items where they are. -/
theorem filter_ne_erase [BEq α] [LawfulBEq α] (l : List α) (x : α) :
    (l.erase x).filter (· != x) = l.filter (· != x) := by
  induction l with
  | nil => rfl
  | cons y l ih =>
    rw [List.erase_cons]
    split
    · next hy => simp [eq_of_beq hy]
    · rw [List.filter_cons, List.filter_cons, ih]

/-- Withdrawing an item leaves those that differ from it where they are. -/
theorem filter_ne_items_erase [BEq α] [LawfulBEq α] (r : Registry α) (x : α) :
    (r.erase x).items.filter (· != x) = r.items.filter (· != x) := by
  simp only [erase, List.filter_reverse, filter_ne_erase, List.reverse_reverse]

theorem isEmpty_iff_size_eq_zero (r : Registry α) : r.isEmpty = true ↔ r.size = 0 := by
  simp [isEmpty, size]

/-- One operation on a registry. -/
inductive Op (α : Type) where
  | push (x : α)
  | pop
  | popWhere (p : α → Bool)
  | erase (x : α)
  | isEmpty

/-- What an operation answers. -/
inductive Answer (α : Type) where
  | done
  | taken (x : Option α)
  | emptiness (b : Bool)
deriving DecidableEq, Repr

/-- The item that an answer brings, if any. -/
def Answer.item : Answer α → Option α
  | .taken x => x
  | _ => none

/-- Carries out one operation. -/
def apply [BEq α] (r : Registry α) : Op α → Answer α × Registry α
  | .push x => (.done, r.push x)
  | .pop => (.taken r.pop.1, r.pop.2)
  | .popWhere p => (.taken (r.popWhere p).1, (r.popWhere p).2)
  | .erase x => (.done, r.erase x)
  | .isEmpty => (.emptiness r.isEmpty, r)

/-- Carries out operations in order: each one's answer with the size after it, and what is left. -/
def trace [BEq α] (r : Registry α) : List (Op α) → List (Answer α × Nat) × Registry α
  | [] => ([], r)
  | op :: ops =>
    let (answer, r') := r.apply op
    let (answers, last) := r'.trace ops
    ((answer, r'.size) :: answers, last)

end Registry

end OneShot
