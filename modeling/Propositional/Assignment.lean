/-!
# Assignments

An assignment gives truth values to finitely many names. Its names stand in the order in which
they were first assigned, each of them once; a later assignment to a name replaces the value and
keeps the place. The rows of a truth table are the assignments of a list of names, counted in
binary from all true to all false.
-/

set_option autoImplicit false

namespace Propositional

/-- A finite map from names to truth values, in order of first assignment. -/
structure Assignment where
  entries : List (String × Bool)
  nodup : (entries.map Prod.fst).Nodup

namespace Assignment

def names (σ : Assignment) : List String :=
  σ.entries.map Prod.fst

def lookup (name : String) (entries : List (String × Bool)) : Option Bool :=
  (entries.find? fun entry => entry.1 = name).map Prod.snd

def get? (σ : Assignment) (name : String) : Option Bool :=
  lookup name σ.entries

def empty : Assignment :=
  ⟨[], List.nodup_nil⟩

def put (name : String) (value : Bool) : List (String × Bool) → List (String × Bool)
  | [] => [(name, value)]
  | entry :: rest =>
      if entry.1 = name then (name, value) :: rest else entry :: put name value rest

theorem names_put (name : String) (value : Bool) (entries : List (String × Bool)) :
    (put name value entries).map Prod.fst =
      if name ∈ entries.map Prod.fst then entries.map Prod.fst
      else entries.map Prod.fst ++ [name] := by
  induction entries with
  | nil => rfl
  | cons entry rest ih =>
      by_cases same : entry.1 = name
      · simp [put, same]
      · have other : ¬ name = entry.1 := fun h => same h.symm
        by_cases found : name ∈ rest.map Prod.fst
        · simp only [put, if_neg same, List.map_cons, ih, if_pos found]
          rw [if_pos (List.mem_cons_of_mem _ found)]
        · simp only [put, if_neg same, List.map_cons, ih, if_neg found]
          rw [if_neg (by simp only [List.mem_cons, not_or]; exact ⟨other, found⟩)]
          rfl

theorem lookup_put (name : String) (value : Bool) (entries : List (String × Bool))
    (key : String) :
    lookup key (put name value entries) =
      if key = name then some value else lookup key entries := by
  induction entries with
  | nil =>
      by_cases same : name = key
      · simp [lookup, put, same]
      · simp [lookup, put, same, Ne.symm same]
  | cons entry rest ih =>
      obtain ⟨first, bit⟩ := entry
      unfold lookup at ih ⊢
      by_cases same : first = name
      · subst same
        by_cases hit : first = key
        · simp [put, hit]
        · simp [put, hit, Ne.symm hit]
      · by_cases hit : first = key
        · subst hit
          simp [put, same]
        · simp [put, same, hit, ih]

def insert (σ : Assignment) (name : String) (value : Bool) : Assignment where
  entries := put name value σ.entries
  nodup := by
    rw [names_put]
    split
    · exact σ.nodup
    · rename_i fresh
      refine List.nodup_append.mpr ⟨σ.nodup, by simp, ?_⟩
      intro a inNames b isName same
      rw [List.mem_singleton] at isName
      exact fresh (isName ▸ same ▸ inNames)

theorem get?_insert (σ : Assignment) (name : String) (value : Bool) (key : String) :
    (σ.insert name value).get? key = if key = name then some value else σ.get? key :=
  lookup_put name value σ.entries key

def ofList (pairs : List (String × Bool)) : Assignment :=
  pairs.foldl (fun σ pair => σ.insert pair.1 pair.2) empty

/-- Gives each of the names its value in row `r`: the last name belongs to the lowest bit of the
row number, and a bit that is not set means true. -/
def insertRow (r : Nat) : List String → Assignment → Assignment
  | [], σ => σ
  | name :: rest, σ => insertRow r rest (σ.insert name (!r.testBit rest.length))

def row (names : List String) (r : Nat) : Assignment :=
  insertRow r names empty

/-- The number of rows of a truth table over a number of names: a row for every number that has at
most one bit for each of them. -/
def rowCount (size : Nat) : Nat :=
  Nat.pow 2 size

def rows (names : List String) : List Assignment :=
  (List.range (rowCount names.length)).map (row names)

end Assignment

end Propositional
