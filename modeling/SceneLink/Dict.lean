namespace SceneLink

abbrev Dict (κ α : Type) := List (κ × α)

namespace Dict

variable {κ α β : Type}

def keys (d : Dict κ α) : List κ := d.map Prod.fst

def mapValues (f : α → β) (d : Dict κ α) : Dict κ β := d.map fun entry => (entry.1, f entry.2)

def mapValues? (f : α → Option β) : Dict κ α → Option (Dict κ β)
  | [] => some []
  | (k, v) :: rest => do
    let w ← f v
    let rest ← mapValues? f rest
    return (k, w) :: rest

section Equality

variable [DecidableEq κ]

def get? : Dict κ α → κ → Option α
  | [], _ => none
  | (k, v) :: rest, key => if key = k then some v else get? rest key

def contains (d : Dict κ α) (key : κ) : Bool := (d.get? key).isSome

def erase (d : Dict κ α) (key : κ) : Dict κ α := List.filter (fun entry => entry.1 ≠ key) d

theorem get?_cons (k : κ) (v : α) (d : Dict κ α) (key : κ) :
    get? ((k, v) :: d) key = if key = k then some v else get? d key := rfl

theorem get?_erase (d : Dict κ α) (key other : κ) :
    (d.erase key).get? other = if other = key then none else d.get? other := by
  induction d with
  | nil => simp [erase, get?]
  | cons entry rest ih =>
      obtain ⟨k, v⟩ := entry
      unfold erase at ih ⊢
      by_cases hk : k = key
      · subst hk
        by_cases ho : other = k <;> simp_all [get?_cons]
      · by_cases ho : other = k
        · subst ho
          simp [hk, get?_cons]
        · simp_all [get?_cons]

end Equality

section Order

variable [DecidableEq κ] [LT κ] [DecidableLT κ]

def Sorted (d : Dict κ α) : Prop := d.Pairwise fun a b => a.1 < b.1

instance (d : Dict κ α) : Decidable d.Sorted :=
  inferInstanceAs (Decidable (d.Pairwise fun a b => a.1 < b.1))

-- The value of an existing key is replaced.
def insert : Dict κ α → κ → α → Dict κ α
  | [], key, value => [(key, value)]
  | (k, v) :: rest, key, value =>
    if key = k then (key, value) :: rest
    else if key < k then (key, value) :: (k, v) :: rest
    else (k, v) :: insert rest key value

-- Inserts the pairs in order, so the last value of a repeated key stays.
def insertAll (d : Dict κ α) (pairs : List (κ × α)) : Dict κ α :=
  pairs.foldl (fun d pair => d.insert pair.1 pair.2) d

def ofList (pairs : List (κ × α)) : Dict κ α := insertAll [] pairs

theorem get?_insert (d : Dict κ α) (key other : κ) (value : α) :
    (d.insert key value).get? other = if other = key then some value else d.get? other := by
  induction d with
  | nil => simp [insert, get?]
  | cons entry rest ih =>
      obtain ⟨k, v⟩ := entry
      unfold insert
      by_cases hk : key = k
      · subst hk
        by_cases ho : other = key <;> simp [get?_cons, ho]
      · by_cases hlt : key < k
        · simp [hk, hlt, get?_cons]
        · by_cases ho : other = k
          · subst ho
            simp [hk, hlt, get?_cons, Ne.symm hk]
          · simp [hk, hlt, get?_cons, ho, ih]

end Order

end Dict

end SceneLink
