import Std.Data.HashSet

/-!
# Entries in order

A list of named values that remembers the order in which the names came. A name that comes again
keeps its place and gets the new value.

## Main results

* `find?_insert_same`, `find?_insert_other`: what is found after an insertion.
* `keys_insert`: an insertion leaves the order of the names, or adds one at the end.
* `ofPairs_eq`: pairs are set one after another.
-/

namespace Stencil

/-- Named values in the order in which their names came. -/
abbrev Entries (α : Type) := List (String × α)

namespace Entries

variable {α : Type}

/-- The value under a name. -/
def find? (name : String) : Entries α → Option α
  | [] => none
  | (key, value) :: rest => if key = name then some value else find? name rest

/-- Is there a value under this name? -/
def has (name : String) (entries : Entries α) : Bool := (find? name entries).isSome

/-- The names in order. -/
def keys (entries : Entries α) : List String := entries.map Prod.fst

/-- Sets the value under a name. -/
def insert (name : String) (value : α) : Entries α → Entries α
  | [] => [(name, value)]
  | (key, old) :: rest =>
      if key = name then (key, value) :: rest else (key, old) :: insert name value rest

/-- The entries without this name. -/
def remove (name : String) : Entries α → Entries α
  | [] => []
  | (key, value) :: rest => if key = name then rest else (key, value) :: remove name rest

/-- Sets one entry after another. -/
def insertAll (entries : Entries α) (more : List (String × α)) : Entries α :=
  more.foldl (fun acc entry => acc.insert entry.1 entry.2) entries

/-- Are all names different, and none of them among those that were seen? -/
def areDistinct (seen : Std.HashSet String) : List (String × α) → Bool
  | [] => true
  | (name, _) :: rest => !seen.contains name && areDistinct (seen.insert name) rest

/-- The entries that a list of pairs sets. Pairs with different names are such entries already. -/
def ofPairs (pairs : List (String × α)) : Entries α :=
  if areDistinct ∅ pairs then pairs else insertAll [] pairs

attribute [local simp] find? insert

@[simp] theorem find?_insert_same (name : String) (value : α) (entries : Entries α) :
    find? name (entries.insert name value) = some value := by
  induction entries with
  | nil => simp
  | cons entry rest ih => unfold insert; split <;> simp_all

theorem find?_insert_other {name other : String} (h : other ≠ name) (value : α)
    (entries : Entries α) : find? other (entries.insert name value) = find? other entries := by
  induction entries with
  | nil => simp [Ne.symm h]
  | cons entry rest ih =>
      unfold insert
      split
      · rename_i hKey
        simp [hKey, Ne.symm h]
      · simp [ih]

/-- An insertion keeps the order of the names; a new name comes last. -/
theorem keys_insert (name : String) (value : α) (entries : Entries α) :
    keys (entries.insert name value) =
      if name ∈ keys entries then keys entries else keys entries ++ [name] := by
  induction entries with
  | nil => simp [keys]
  | cons entry rest ih =>
      unfold insert
      split
      · rename_i hKey
        simp [keys, hKey]
      · rename_i hKey
        simp only [keys, List.map_cons, List.mem_cons] at ih ⊢
        rw [ih]
        have hName : ¬ name = entry.1 := fun h => hKey h.symm
        by_cases hRest : name ∈ rest.map Prod.fst <;> simp [hName, hRest]

theorem insert_of_notMem {name : String} {entries : Entries α} (h : name ∉ keys entries)
    (value : α) : entries.insert name value = entries ++ [(name, value)] := by
  induction entries with
  | nil => rfl
  | cons entry rest ih =>
      simp only [keys, List.map_cons, List.mem_cons, not_or] at h
      unfold insert
      rw [if_neg (Ne.symm h.1), ih h.2]
      rfl

theorem insertAll_of_areDistinct {seen : Std.HashSet String} {pairs : List (String × α)}
    (h : areDistinct seen pairs = true) (entries : Entries α)
    (hSeen : ∀ name ∈ keys entries, name ∈ seen) :
    insertAll entries pairs = entries ++ pairs := by
  induction pairs generalizing seen entries with
  | nil => simp [insertAll]
  | cons pair rest ih =>
      obtain ⟨name, value⟩ := pair
      simp only [areDistinct, Bool.and_eq_true, Bool.not_eq_true'] at h
      have hNew : name ∉ keys entries := fun hMem => by
        have hContains := Std.HashSet.mem_iff_contains.1 (hSeen name hMem)
        rw [h.1] at hContains
        cases hContains
      have hRest := ih h.2 (entries ++ [(name, value)]) fun key hKey => by
        simp only [keys, List.map_append, List.map_cons, List.map_nil, List.mem_append,
          List.mem_singleton] at hKey
        rw [Std.HashSet.mem_insert]
        exact hKey.elim (fun hOld => Or.inr (hSeen key hOld)) fun hSame => Or.inl (by simp [hSame])
      calc insertAll entries ((name, value) :: rest)
          = insertAll (entries.insert name value) rest := rfl
        _ = entries ++ (name, value) :: rest := by
            rw [insert_of_notMem hNew, hRest, List.append_assoc]
            rfl

/-- Pairs are set one after another. -/
theorem ofPairs_eq (pairs : List (String × α)) : ofPairs pairs = insertAll [] pairs := by
  unfold ofPairs
  split
  · rename_i h
    rw [insertAll_of_areDistinct h [] (fun name hMem => by cases hMem)]
    rfl
  · rfl

end Entries

end Stencil
