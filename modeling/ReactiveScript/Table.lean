/-!
# Tables

A table keeps one value under each of its keys. It is the list of its entries; that list has some
order, and nothing that is read from a table may depend on it.
-/

namespace ReactiveScript

/-- Entries under different keys. -/
abbrev Table (α β : Type) := List (α × β)

namespace Table

variable {α β : Type}

def keys (m : Table α β) : List α := m.map Prod.fst

@[simp] theorem keys_nil : keys ([] : Table α β) = [] := rfl

@[simp] theorem keys_cons (e : α × β) (rest : Table α β) :
    keys (e :: rest) = e.1 :: keys rest := rfl

variable [DecidableEq α]

/-- The value under a key. -/
def find? (key : α) : Table α β → Option β
  | [] => none
  | (k, v) :: rest => if k = key then some v else find? key rest

/-- Puts under a key what is made of the value that is there, if there is one. -/
def alter (key : α) (f : Option β → β) : Table α β → Table α β
  | [] => [(key, f none)]
  | (k, v) :: rest => if k = key then (k, f (some v)) :: rest else (k, v) :: alter key f rest

@[simp] theorem find?_nil (key : α) : find? key ([] : Table α β) = none := rfl

theorem find?_alter (m : Table α β) (key key' : α) (f : Option β → β) :
    (m.alter key f).find? key' = if key = key' then some (f (m.find? key)) else m.find? key' := by
  induction m with
  | nil => simp [alter, find?]
  | cons e rest ih =>
    obtain ⟨k, v⟩ := e
    by_cases hk : k = key
    · subst hk
      by_cases hk' : k = key' <;> simp [alter, find?, hk']
    · by_cases hk' : k = key'
      · subst hk'
        simp [alter, find?, hk, Ne.symm hk]
      · simp [alter, find?, hk, hk', ih]

theorem keys_alter (m : Table α β) (key : α) (f : Option β → β) :
    (m.alter key f).keys = if key ∈ m.keys then m.keys else m.keys ++ [key] := by
  induction m with
  | nil => simp [alter]
  | cons e rest ih =>
    obtain ⟨k, v⟩ := e
    by_cases hk : k = key
    · subst hk
      simp [alter]
    · rw [alter, if_neg hk, keys_cons, ih]
      by_cases hm : key ∈ keys rest <;> simp [hm, Ne.symm hk]

end Table
end ReactiveScript
