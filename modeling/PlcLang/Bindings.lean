/-!
# `PlcLang.Bindings`: finite maps

A finite map as the list of its entries. Scopes, members of types and
objects, and tables of settings are such maps. `get?_set` and `get?_erase`
say all there is to say about one entry after an update; `sortedBy` puts
keys in order for whoever shows a map.
-/

set_option autoImplicit false

namespace PlcLang

/-- A finite map from `κ` to `α`. The first entry of a key counts. -/
structure Bindings (κ α : Type) where
  entries : List (κ × α) := []
deriving Inhabited

namespace Bindings

variable {κ α β : Type} [BEq κ]

/-- The map without entries. Every scope, object and table begins as it. -/
def empty : Bindings κ α := ⟨[]⟩

/-- The value bound to a key. An entry further back with the same key is never seen,
so a map may be built without looking for keys that are there already. -/
def get? (bindings : Bindings κ α) (key : κ) : Option α :=
  bindings.entries.lookup key

/-- Puts a value in the place of the first entry of `key`, or at the end. -/
def setEntry (key : κ) (value : α) : List (κ × α) → List (κ × α)
  | [] => [(key, value)]
  | (k, v) :: rest =>
    if k == key then (k, value) :: rest else (k, v) :: setEntry key value rest

/-- Binds `key` to `value`, whatever it was bound to before. -/
def set (bindings : Bindings κ α) (key : κ) (value : α) : Bindings κ α :=
  ⟨setEntry key value bindings.entries⟩

/-- Unbinds a key. All of its entries go, since an entry further back would be seen
otherwise. -/
def erase (bindings : Bindings κ α) (key : κ) : Bindings κ α :=
  ⟨bindings.entries.filter fun entry => !(entry.1 == key)⟩

/-- Whether a key is bound. -/
def contains (bindings : Bindings κ α) (key : κ) : Bool :=
  (bindings.get? key).isSome

/-- The map of the given entries; of two with one key the later counts. -/
def ofList (entries : List (κ × α)) : Bindings κ α :=
  entries.foldl (fun bindings entry => bindings.set entry.1 entry.2) empty

/-- The entries in the order of their keys. The sort is stable, and a map that is
built by `set` has no key twice, so the order does not depend on when what was
bound. -/
def sortedBy (le : κ → κ → Bool) (bindings : Bindings κ α) : List (κ × α) :=
  bindings.entries.mergeSort fun a b => le a.1 b.1

/-- The entry of `key` is found with its new value, and every other look-up goes on
past it as before. Both `setEntry` and the look-up stop at the first entry of a key,
so the induction is on the entries. -/
theorem lookup_setEntry [LawfulBEq κ] (key other : κ) (value : α) (entries : List (κ × α)) :
    (setEntry key value entries).lookup other
      = if other == key then some value else entries.lookup other := by
  induction entries with
  | nil =>
      by_cases h : other == key
      · simp [setEntry, List.lookup_cons, h]
      · simp [setEntry, List.lookup_cons, h]
  | cons entry rest ih =>
      obtain ⟨k, v⟩ := entry
      by_cases hk : k = key
      · subst hk
        by_cases ho : other == k
        · simp [setEntry, List.lookup_cons, ho]
        · simp [setEntry, List.lookup_cons, ho]
      · by_cases ho : other == k
        · have hne : (other == key) = false := by
            rw [beq_iff_eq] at ho
            subst ho
            exact beq_false_of_ne hk
          simp [setEntry, List.lookup_cons, hk, ho, hne]
        · simp [setEntry, List.lookup_cons, hk, ho, ih]

/-- What a key is bound to after an update. -/
theorem get?_set [LawfulBEq κ] (bindings : Bindings κ α) (key other : κ) (value : α) :
    (bindings.set key value).get? other
      = if other == key then some value else bindings.get? other :=
  lookup_setEntry key other value bindings.entries

/-- Without the entries of `key` nothing is found for it, and another key is found
where it was. -/
theorem lookup_filter_ne [LawfulBEq κ] (key other : κ) (entries : List (κ × α)) :
    (entries.filter fun entry => !(entry.1 == key)).lookup other
      = if other == key then none else entries.lookup other := by
  induction entries with
  | nil => simp
  | cons entry rest ih =>
      obtain ⟨k, v⟩ := entry
      by_cases hk : k == key
      · have hsame : k = key := beq_iff_eq.mp hk
        subst hsame
        -- the entry is left out; a look-up of another key went past it before
        by_cases ho : other == k <;> simp [List.lookup_cons, ho, ih]
      · by_cases ho : other == k
        · have hne : (other == key) = false := by
            rw [beq_iff_eq] at ho
            subst ho
            exact Bool.eq_false_iff.mpr hk
          simp [List.lookup_cons, hk, ho, hne]
        · simp [List.lookup_cons, hk, ho, ih]

/-- What a key is bound to after one has been unbound. -/
theorem get?_erase [LawfulBEq κ] (bindings : Bindings κ α) (key other : κ) :
    (bindings.erase key).get? other = if other == key then none else bindings.get? other :=
  lookup_filter_ne key other bindings.entries

end Bindings

end PlcLang
