/-
# Registries

A registry keeps values under keys, in the order in which the keys came first.  Putting a value
under a key that is already there replaces the value and keeps the place.
-/

namespace Survey

/-- Values under keys, in order of the first insertion of the keys. -/
structure Registry (κ ν : Type) where
  /-- The keys with their values. -/
  toList : List (κ × ν)
deriving DecidableEq, Repr

namespace Registry

variable {κ ν : Type}

/-- The registry with nothing in it. -/
def empty : Registry κ ν := ⟨[]⟩

instance : EmptyCollection (Registry κ ν) := ⟨empty⟩

instance : Inhabited (Registry κ ν) := ⟨empty⟩

@[simp] theorem toList_empty : (∅ : Registry κ ν).toList = [] := rfl

variable [DecidableEq κ]

/-- The pairs of a list after one value is put under a key. -/
def put (key : κ) (value : ν) : List (κ × ν) → List (κ × ν)
  | [] => [(key, value)]
  | (k, v) :: rest => if k = key then (k, value) :: rest else (k, v) :: put key value rest

/-- Puts a value under a key. -/
def insert (registry : Registry κ ν) (key : κ) (value : ν) : Registry κ ν :=
  ⟨put key value registry.toList⟩

/-- Puts several values under their keys, one after the other. -/
def insertMany (registry : Registry κ ν) (pairs : List (κ × ν)) : Registry κ ν :=
  pairs.foldl (fun r (key, value) => r.insert key value) registry

/-- The registry of some pairs, put in one after the other. -/
def ofPairs (pairs : List (κ × ν)) : Registry κ ν := insertMany ∅ pairs

/-- The value under a key, if there is one. -/
def get? (registry : Registry κ ν) (key : κ) : Option ν :=
  (registry.toList.find? fun (k, _) => k = key).map (·.2)

/-- Takes a key out with its value. -/
def erase (registry : Registry κ ν) (key : κ) : Registry κ ν :=
  ⟨registry.toList.filter fun (k, _) => k ≠ key⟩

/-- The keys in order. -/
def keys (registry : Registry κ ν) : List κ := registry.toList.map (·.1)

/-- The values in the order of their keys. -/
def values (registry : Registry κ ν) : List ν := registry.toList.map (·.2)

/-- The number of keys. -/
def size (registry : Registry κ ν) : Nat := registry.toList.length

@[simp] theorem toList_insert (registry : Registry κ ν) (key : κ) (value : ν) :
    (registry.insert key value).toList = put key value registry.toList := rfl

/-- A key that is put in anew goes to the end; a key that is there keeps its place. -/
theorem keys_put (key : κ) (value : ν) (pairs : List (κ × ν)) :
    (put key value pairs).map (·.1) =
      if key ∈ pairs.map (·.1) then pairs.map (·.1) else pairs.map (·.1) ++ [key] := by
  induction pairs with
  | nil => simp [put]
  | cons pair rest ih =>
    obtain ⟨k, v⟩ := pair
    by_cases h : k = key
    · simp [put, h]
    · have h' : key ≠ k := fun e => h e.symm
      simp only [put, h, if_false, List.map_cons, ih, List.mem_cons, h', false_or]
      split <;> simp

end Registry

end Survey
