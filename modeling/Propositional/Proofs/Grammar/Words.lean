import Propositional.Proofs.Grammar

/-!
# What the words of a phrase determine

`Phrase.words_injective`: words have at most one derivation. `Phrase.tree_reading`: what is read off
the formula of a phrase from left to right is read off its words, so the leaves of the formula are
the atoms of the phrase.
-/

set_option autoImplicit false

namespace Propositional

/-! ## The leaves of a formula -/

namespace Formula

def leaves : Formula → List String
  | atom name => [name]
  | negation operand => operand.leaves
  | binary _ left right => left.leaves ++ right.leaves
  | unspecified left right => left.leaves ++ right.leaves
  | hole => []

theorem leaves_ne_nil {f : Formula} (concrete : f.Concrete) : f.leaves ≠ [] := by
  induction f with
  | atom name => exact List.cons_ne_nil _ _
  | negation operand ih => exact ih concrete
  | binary c left right leftIh _ => exact List.append_ne_nil_of_left_ne_nil (leftIh concrete.1) _
  | unspecified left right => exact concrete.elim
  | hole => exact concrete.elim

end Formula

/-! ## Readings from left to right -/

section Readings

variable {γ : Type} {reading : Formula → List γ} {image : Word → List γ}

theorem Formula.nest_reading
    (binary : ∀ c left right, reading (.binary c left right) =
      reading left ++ image (.connective c) ++ reading right)
    (c : Connective) (first : Formula) (others : List Formula) :
    reading (nest c first others) =
      reading first ++ others.flatMap fun f => image (.connective c) ++ reading f := by
  induction others generalizing first with
  | nil => simp [nest]
  | cons next rest ih => simp [nest, binary, ih]

/-- However the steps of a phrase are grouped, they are read in their order. -/
theorem Phrase.associate_reading
    (binary : ∀ c left right, reading (.binary c left right) =
      reading left ++ image (.connective c) ++ reading right) (e : Phrase Formula) :
    reading e.associate = reading e.first ++
      e.steps.flatMap fun step => image (.connective step.1) ++ reading step.2 := by
  have stepsEq : e.runs.flatMap Run.steps = e.steps := Run.flatMap_steps_ofSteps e.steps
  rw [associate, ← stepsEq]
  generalize e.runs = runs
  generalize e.first = left
  induction runs generalizing left with
  | nil => simp
  | cons r runs ih =>
      have right := Formula.nest_reading binary r.connective r.first r.others
      rw [List.foldl_cons, ih, binary, Run.nest, right]
      simp [Run.steps, Run.items, List.flatMap_map]

theorem Phrase.tree_reading_of_items
    (binary : ∀ c left right, reading (.binary c left right) =
      reading left ++ image (.connective c) ++ reading right) (e : Phrase Primary)
    (first : reading e.first.tree = e.first.words.flatMap image)
    (steps : ∀ step ∈ e.steps, reading step.2.tree = step.2.words.flatMap image) :
    reading e.tree = e.words.flatMap image := by
  have stepsRead : (e.steps.flatMap fun step =>
      image (.connective step.1) ++ reading step.2.tree) =
        e.steps.flatMap fun step => (stepWords step).flatMap image := by
    refine List.flatMap_congr fun step member => ?_
    rw [steps step member, stepWords, List.flatMap_cons]
  rw [Phrase.tree, associate_reading binary, Phrase.words_eq, List.flatMap_append,
    List.flatMap_assoc, ← stepsRead, ← first]
  simp [Phrase.map, List.flatMap_map]

variable (atom : ∀ name, reading (.atom name) = image (.atom name))
  (negation : ∀ f, reading (.negation f) = image .negation ++ reading f)
  (binary : ∀ c left right, reading (.binary c left right) =
    reading left ++ image (.connective c) ++ reading right)
  (opening : image .opening = []) (closing : image .closing = [])

include atom negation binary opening closing

theorem Primary.tree_reading (p : Primary) : reading p.tree = p.words.flatMap image := by
  induction p with
  | atom name => simp [atom]
  | negation p ih => simp [negation, ih]
  | group e first steps =>
      have inside := Phrase.tree_reading_of_items binary e first steps
      simp [inside, opening, closing]

/-- A reading that passes over parentheses can be taken from the words. -/
theorem Phrase.tree_reading (e : Phrase Primary) : reading e.tree = e.words.flatMap image :=
  Phrase.tree_reading_of_items binary e
    (Primary.tree_reading atom negation binary opening closing e.first)
    fun step _ => Primary.tree_reading atom negation binary opening closing step.2

end Readings

def Word.name? : Word → Option String
  | atom name => some name
  | _ => none

theorem Phrase.tree_leaves (e : Phrase Primary) :
    e.tree.leaves = e.words.filterMap Word.name? := by
  have binary : ∀ c left right, (Formula.binary c left right).leaves =
      left.leaves ++ (Word.connective c).name?.toList ++ right.leaves := by
    intro c left right
    simp [Formula.leaves, Word.name?]
  rw [List.filterMap_eq_flatMap_toList]
  exact @Phrase.tree_reading String Formula.leaves (fun word => word.name?.toList)
    (fun _ => rfl) (fun _ => rfl) binary rfl rfl e

/-! ## Words have one derivation -/

def EndsSteps (rest : List Word) : Prop :=
  ∀ c more, rest ≠ .connective c :: more

/-- The words of the primary, whatever follows them, come from this primary only. -/
def Primary.Determined (p : Primary) : Prop :=
  ∀ (q : Primary) (rest other : List Word), p.words ++ rest = q.words ++ other →
    p = q ∧ rest = other

theorem steps_determined (steps : List (Connective × Primary))
    (each : ∀ step ∈ steps, step.2.Determined) (others : List (Connective × Primary))
    (rest other : List Word) (restEnds : EndsSteps rest) (otherEnds : EndsSteps other)
    (same : steps.flatMap stepWords ++ rest = others.flatMap stepWords ++ other) :
    steps = others ∧ rest = other := by
  induction steps generalizing others with
  | nil =>
      cases others with
      | nil => exact ⟨rfl, same⟩
      | cons step others => exact absurd same (restEnds step.1 _)
  | cons step steps ih =>
      cases others with
      | nil => exact absurd same.symm (otherEnds step.1 _)
      | cons otherStep others =>
          obtain ⟨c, p⟩ := step
          obtain ⟨d, q⟩ := otherStep
          simp only [List.flatMap_cons, stepWords, List.cons_append, List.append_assoc,
            List.cons.injEq, Word.connective.injEq] at same
          obtain ⟨rfl, itemSame⟩ := same
          obtain ⟨rfl, laterSame⟩ := each (c, p) (List.mem_cons_self ..) q _ _ itemSame
          obtain ⟨rfl, restEq⟩ :=
            ih (fun step member => each step (List.mem_cons_of_mem _ member)) others laterSame
          exact ⟨rfl, restEq⟩

theorem phrase_determined (e : Phrase Primary) (first : e.first.Determined)
    (steps : ∀ step ∈ e.steps, step.2.Determined) (f : Phrase Primary) (rest other : List Word)
    (restEnds : EndsSteps rest) (otherEnds : EndsSteps other)
    (same : e.words ++ rest = f.words ++ other) : e = f ∧ rest = other := by
  rw [Phrase.words_eq, Phrase.words_eq, List.append_assoc, List.append_assoc] at same
  obtain ⟨firstEq, same⟩ := first f.first _ _ same
  obtain ⟨stepsEq, restEq⟩ := steps_determined e.steps steps f.steps rest other restEnds otherEnds
    same
  obtain ⟨eFirst, eSteps⟩ := e
  obtain ⟨fFirst, fSteps⟩ := f
  cases firstEq
  cases stepsEq
  exact ⟨rfl, restEq⟩

theorem Primary.determined (p : Primary) : p.Determined := by
  induction p with
  | atom name =>
      intro q rest other same
      cases q with
      | atom otherName =>
          simp only [words_atom, List.singleton_append, List.cons.injEq, Word.atom.injEq] at same
          exact ⟨congrArg _ same.1, same.2⟩
      | negation q => cases same
      | group f =>
          rw [words_group] at same
          cases same
  | negation p ih =>
      intro q rest other same
      cases q with
      | atom otherName => cases same
      | negation q =>
          obtain ⟨operandEq, restEq⟩ := ih q rest other (List.cons.inj same).2
          exact ⟨congrArg _ operandEq, restEq⟩
      | group f =>
          rw [words_group] at same
          cases same
  | group e first steps =>
      intro q rest other same
      rw [words_group] at same
      cases q with
      | atom otherName => cases same
      | negation q => cases same
      | group f =>
          rw [words_group] at same
          simp only [List.cons_append, List.append_assoc, List.cons.injEq, true_and,
            List.nil_append] at same
          obtain ⟨contentEq, restEq⟩ := phrase_determined e first steps f (.closing :: rest)
            (.closing :: other) nofun nofun same
          exact ⟨congrArg _ contentEq, (List.cons.inj restEq).2⟩

theorem Phrase.words_injective {e f : Phrase Primary} (same : e.words = f.words) : e = f :=
  (phrase_determined e e.first.determined (fun step _ => step.2.determined) f [] [] nofun nofun
    (by rw [same])).1

end Propositional
