/-! # Keyed values

An association that keeps its keys in the order in which they first came. Setting the value
of a key that is there leaves the key in its place.
-/

namespace StubTree

/-- Values under keys, in order of first insertion. -/
abbrev Keyed (κ α : Type) := List (κ × α)

namespace Keyed

variable {κ α : Type} [DecidableEq κ]

def get? (key : κ) : Keyed κ α → Option α
  | [] => none
  | (k, v) :: rest => if k = key then some v else get? key rest

/-- Sets the value under a key; a new key comes last. -/
def set (key : κ) (value : α) : Keyed κ α → Keyed κ α
  | [] => [(key, value)]
  | (k, v) :: rest => if k = key then (k, value) :: rest else (k, v) :: set key value rest

def erase (key : κ) : Keyed κ α → Keyed κ α
  | [] => []
  | (k, v) :: rest => if k = key then rest else (k, v) :: erase key rest

def keys (m : Keyed κ α) : List κ := m.map (·.1)

def values (m : Keyed κ α) : List α := m.map (·.2)

theorem get?_set_self (key : κ) (value : α) (m : Keyed κ α) :
    get? key (set key value m) = some value := by
  induction m with
  | nil => simp [set, get?]
  | cons entry rest ih =>
    rcases entry with ⟨k, v⟩
    by_cases h : k = key <;> simp [set, get?, h, ih]

theorem get?_set_of_ne {key other : κ} (h : other ≠ key) (value : α) (m : Keyed κ α) :
    get? other (set key value m) = get? other m := by
  induction m with
  | nil => simp [set, get?, Ne.symm h]
  | cons entry rest ih =>
    rcases entry with ⟨k, v⟩
    by_cases hk : k = key
    · subst hk; simp [set, get?, Ne.symm h]
    · by_cases ho : k = other
      · subst ho; simp [set, get?, hk]
      · simp [set, get?, hk, ho, ih]

theorem mem_keys_set {key other : κ} {value : α} {m : Keyed κ α} :
    other ∈ keys (set key value m) ↔ other = key ∨ other ∈ keys m := by
  induction m with
  | nil => simp [set, keys]
  | cons entry rest ih =>
    rcases entry with ⟨k, v⟩
    simp only [keys] at ih
    by_cases hk : k = key
    · subst hk; simp [set, keys]
    · simp only [set, hk, if_false, keys, List.map_cons, List.mem_cons, ih]
      constructor
      · rintro (h | h | h) <;> simp [h]
      · rintro (h | h | h) <;> simp [h]

end Keyed

end StubTree
