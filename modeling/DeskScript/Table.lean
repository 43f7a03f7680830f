/-!
Tables from names to values that keep the order in which names were first put.

    get? (put t k v) k = some v                                   (Table.get?_put_self)
-/

namespace DeskScript

/-- Names with their values, oldest name first. -/
abbrev Table (α : Type) := List (String × α)

namespace Table

variable {α : Type}

/-- The value of a name. -/
def get? : Table α → String → Option α
  | [], _ => none
  | (k', v) :: t, k => if k' = k then some v else get? t k

def has (t : Table α) (k : String) : Bool := (get? t k).isSome

/-- Gives a name a value: a known name keeps its place, a new one goes to the end. -/
def put : Table α → String → α → Table α
  | [], k, v => [(k, v)]
  | (k', v') :: t, k, v => if k' = k then (k, v) :: t else (k', v') :: put t k v

/-- The table that pairs leave behind when they are put one after the other. -/
def ofPairs (pairs : List (String × α)) : Table α := pairs.foldl (fun t (k, v) => put t k v) []

def names (t : Table α) : List String := t.map (·.1)

@[simp] theorem get?_put_self (t : Table α) (k : String) (v : α) : get? (put t k v) k = some v := by
  induction t with
  | nil => simp [put, get?]
  | cons p t ih => by_cases h : p.1 = k <;> simp [put, get?, h, ih]

theorem get?_put_ne (t : Table α) {k k' : String} (h : k' ≠ k) (v : α) :
    get? (put t k v) k' = get? t k' := by
  induction t with
  | nil => simp [put, get?, h.symm]
  | cons p t ih =>
    by_cases hp : p.1 = k
    · simp [put, get?, hp, h.symm]
    · simp [put, get?, hp, ih]

end Table

end DeskScript
