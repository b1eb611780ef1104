/-!
# Tables

A table holds values by name, in the order of the names. `get?_insert` and `get?_erase` say what
the operations do to a look-up.
-/

namespace OneShot.Script

/-- Values by name. -/
structure Table (α : Type) where
  /-- The entries, by increasing name. -/
  entries : List (String × α)

namespace Table

variable {α : Type}

/-- The table without entries. -/
def empty : Table α := ⟨[]⟩

instance : Inhabited (Table α) := ⟨empty⟩

/-- Puts an entry in its place among others, over one of the same name. -/
def insertEntry (name : String) (a : α) : List (String × α) → List (String × α)
  | [] => [(name, a)]
  | (n, b) :: rest =>
    if name = n then (name, a) :: rest
    else if name < n then (name, a) :: (n, b) :: rest
    else (n, b) :: insertEntry name a rest

/-- The value under a name. -/
def get? (t : Table α) (name : String) : Option α := t.entries.lookup name

/-- Puts a value under a name. -/
def insert (t : Table α) (name : String) (a : α) : Table α := ⟨insertEntry name a t.entries⟩

/-- Removes what is under a name. -/
def erase (t : Table α) (name : String) : Table α := ⟨t.entries.filter (·.1 != name)⟩

private theorem lookup_cons_ite (n other : String) (b : α) (l : List (String × α)) :
    ((n, b) :: l).lookup other = if other = n then some b else l.lookup other := by
  rw [List.lookup_cons]
  by_cases h : other = n
  · simp [h]
  · have hne : (other == n) = false := by simpa using h
    simp [h, hne]

private theorem lookup_insertEntry (name other : String) (a : α) (l : List (String × α)) :
    (insertEntry name a l).lookup other = if other = name then some a else l.lookup other := by
  induction l with
  | nil => simp [insertEntry, lookup_cons_ite]
  | cons p rest ih =>
    obtain ⟨n, b⟩ := p
    by_cases hn : name = n
    · by_cases h : other = n <;> simp [insertEntry, lookup_cons_ite, hn, h]
    · by_cases hlt : name < n
      · simp [insertEntry, lookup_cons_ite, hn, hlt]
      · by_cases h : other = n
        · have hne : n ≠ name := Ne.symm hn
          simp [insertEntry, hlt, hn, hne, h]
        · simp [insertEntry, lookup_cons_ite, hn, hlt, h, ih]

/-- After an insertion the name has the new value, and other names what they had. -/
theorem get?_insert (t : Table α) (name other : String) (a : α) :
    (t.insert name a).get? other = if other = name then some a else t.get? other :=
  lookup_insertEntry name other a t.entries

private theorem lookup_filter_ne (name other : String) (l : List (String × α)) :
    (l.filter (·.1 != name)).lookup other = if other = name then none else l.lookup other := by
  induction l with
  | nil => simp
  | cons p rest ih =>
    obtain ⟨n, b⟩ := p
    by_cases hn : n = name
    · subst hn
      rw [List.filter_cons_of_neg (by simp), ih]
      by_cases h : other = n <;> simp [lookup_cons_ite, h]
    · rw [List.filter_cons_of_pos (by simpa using hn), lookup_cons_ite, lookup_cons_ite, ih]
      by_cases h : other = n
      · simp [h, hn]
      · simp [h]

/-- After a removal the name has no value, and other names what they had. -/
theorem get?_erase (t : Table α) (name other : String) :
    (t.erase name).get? other = if other = name then none else t.get? other :=
  lookup_filter_ne name other t.entries

end Table

end OneShot.Script
