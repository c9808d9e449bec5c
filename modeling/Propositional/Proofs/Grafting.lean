import Propositional.Proofs.Grammar.Words

/-!
# Planting formulas in the place of leaves

`Phrase.patched`: primaries that are put in the place of the atoms of a phrase make another phrase.
The words change only there, and so does the formula: the new formulas stand where the leaves of the
atoms stood.
-/

set_option autoImplicit false

namespace Propositional

namespace Formula

/-- Puts formulas in the place of the atoms, from left to right. -/
def plant : Formula → List Formula → Formula
  | atom name, seeds => seeds.headD (atom name)
  | negation operand, seeds => negation (operand.plant seeds)
  | binary c left right, seeds =>
      binary c (left.plant seeds) (right.plant (seeds.drop left.leaves.length))
  | unspecified left right, seeds =>
      unspecified (left.plant seeds) (right.plant (seeds.drop left.leaves.length))
  | hole, _ => hole

theorem plant_append (f : Formula) (seeds more : List Formula)
    (enough : f.leaves.length ≤ seeds.length) : f.plant (seeds ++ more) = f.plant seeds := by
  induction f generalizing seeds with
  | atom name =>
      cases seeds with
      | nil => simp [leaves] at enough
      | cons seed rest => rfl
  | negation operand ih => exact congrArg negation (ih seeds enough)
  | binary c left right leftIh rightIh =>
      rw [leaves, List.length_append] at enough
      have rightEnough : right.leaves.length ≤ (seeds.drop left.leaves.length).length := by
        rw [List.length_drop]
        omega
      rw [plant, plant, leftIh seeds (by omega), List.drop_append_of_le_length (by omega),
        rightIh _ rightEnough]
  | unspecified left right leftIh rightIh =>
      rw [leaves, List.length_append] at enough
      have rightEnough : right.leaves.length ≤ (seeds.drop left.leaves.length).length := by
        rw [List.length_drop]
        omega
      rw [plant, plant, leftIh seeds (by omega), List.drop_append_of_le_length (by omega),
        rightIh _ rightEnough]
  | hole => rfl

theorem plant_binary (c : Connective) (left right : Formula) (seeds more : List Formula)
    (full : seeds.length = left.leaves.length) :
    (binary c left right).plant (seeds ++ more) =
      binary c (left.plant seeds) (right.plant more) := by
  rw [plant, plant_append left seeds more (Nat.le_of_eq full.symm), ← full, List.drop_left]

def Grows (f : Formula) (seeds : List Formula) (grown : Formula) : Prop :=
  seeds.length = f.leaves.length ∧ f.plant seeds = grown

theorem Grows.binary {left right leftGrown rightGrown : Formula} {seeds more : List Formula}
    (c : Connective) (leftGrows : left.Grows seeds leftGrown)
    (rightGrows : right.Grows more rightGrown) :
    (binary c left right).Grows (seeds ++ more) (.binary c leftGrown rightGrown) := by
  obtain ⟨leftFull, rfl⟩ := leftGrows
  obtain ⟨rightFull, rfl⟩ := rightGrows
  exact ⟨by simp [leaves, leftFull, rightFull], plant_binary c left right seeds more leftFull⟩

end Formula

/-! ## Phrases of formulas with their seeds -/

section Items

variable {α : Type} {stock grown : α → Formula} {seeds : α → List Formula}
  (each : ∀ item, (stock item).Grows (seeds item) (grown item))

include each

theorem Formula.nest_grows (c : Connective) (first : α) (others : List α) :
    (nest c (stock first) (others.map stock)).Grows (seeds first ++ others.flatMap seeds)
      (nest c (grown first) (others.map grown)) := by
  induction others generalizing first with
  | nil => simpa [nest] using each first
  | cons next rest ih => exact (each first).binary c (ih next)

theorem Phrase.associate_grows (e : Phrase α) :
    (e.map stock).associate.Grows (seeds e.first ++ e.steps.flatMap fun step => seeds step.2)
      (e.map grown).associate := by
  have stepsEq : e.runs.flatMap Run.steps = e.steps := Run.flatMap_steps_ofSteps e.steps
  rw [associate, associate, runs_map, runs_map, ← stepsEq]
  have fold (runs : List (Run α)) (left leftGrown : Formula) (before : List Formula)
      (leftGrows : left.Grows before leftGrown) :
      ((runs.map (Run.map stock)).foldl
        (fun left r => .binary r.connective left r.nest) left).Grows
          (before ++ (runs.flatMap Run.steps).flatMap fun step => seeds step.2)
          ((runs.map (Run.map grown)).foldl
            (fun left r => .binary r.connective left r.nest) leftGrown) := by
    induction runs generalizing left leftGrown before with
    | nil => simpa using leftGrows
    | cons r runs ih =>
        have right := Formula.nest_grows each r.connective r.first r.others
        have runSeeds : (r.steps.flatMap fun step => seeds step.2) =
            seeds r.first ++ r.others.flatMap seeds := by
          simp [Run.steps, Run.items, List.flatMap_map]
        rw [List.flatMap_cons, List.flatMap_append, runSeeds, ← List.append_assoc]
        exact ih _ _ _ (leftGrows.binary r.connective right)
  exact fold e.runs _ _ _ (each e.first)

end Items

/-! ## Primaries in the place of atoms -/

/-- A primary, the formulas planted in it, and the primary that it becomes. -/
structure Graft where
  stock : Primary
  seeds : List Formula
  grown : Primary
  grows : stock.tree.Grows seeds grown.tree

structure Patch where
  word : Word
  primary : Primary

namespace Patch

def words (patch : Patch) : List Word :=
  match patch.word with
  | .atom _ => patch.primary.words
  | word => [word]

def seed? (patch : Patch) : Option Formula :=
  match patch.word with
  | .atom _ => some patch.primary.tree
  | _ => none

end Patch

def Primary.Patched (p : Primary) : Prop :=
  ∀ patches : List Patch, patches.map Patch.word = p.words →
    ∃ g : Graft, g.stock = p ∧ g.seeds = patches.filterMap Patch.seed? ∧
      g.grown.words = patches.flatMap Patch.words

theorem steps_patched (steps : List (Connective × Primary))
    (each : ∀ step ∈ steps, step.2.Patched) (patches : List Patch)
    (spelt : patches.map Patch.word = steps.flatMap stepWords) :
    ∃ grafts : List (Connective × Graft),
      (grafts.map fun step => (step.1, step.2.stock)) = steps ∧
      (grafts.flatMap fun step => step.2.seeds) = patches.filterMap Patch.seed? ∧
      (grafts.flatMap fun step => stepWords (step.1, step.2.grown)) =
        patches.flatMap Patch.words := by
  induction steps generalizing patches with
  | nil =>
      rw [List.map_eq_nil_iff.mp spelt]
      exact ⟨[], rfl, rfl, rfl⟩
  | cons step steps ih =>
      obtain ⟨front, back, rfl, frontSpelt, backSpelt⟩ := List.map_eq_append_iff.mp spelt
      obtain ⟨⟨word, primary⟩, more, rfl, rfl, moreSpelt⟩ := List.map_eq_cons_iff.mp frontSpelt
      obtain ⟨g, stock, seeds, words⟩ := each step (List.mem_cons_self ..) more moreSpelt
      obtain ⟨grafts, stocks, laterSeeds, laterWords⟩ :=
        ih (fun step member => each step (List.mem_cons_of_mem _ member)) back backSpelt
      refine ⟨(step.1, g) :: grafts, ?_, ?_, ?_⟩
      · simp [stock, stocks]
      · simp [List.filterMap_cons, Patch.seed?, seeds, laterSeeds]
      · rw [List.flatMap_cons, laterWords]
        simp [Patch.words, stepWords, words]

theorem phrase_patched (e : Phrase Primary) (first : e.first.Patched)
    (steps : ∀ step ∈ e.steps, step.2.Patched) (patches : List Patch)
    (spelt : patches.map Patch.word = e.words) :
    ∃ f : Phrase Primary, e.tree.Grows (patches.filterMap Patch.seed?) f.tree ∧
      f.words = patches.flatMap Patch.words := by
  rw [Phrase.words_eq] at spelt
  obtain ⟨front, back, rfl, frontSpelt, backSpelt⟩ := List.map_eq_append_iff.mp spelt
  obtain ⟨g, stock, seeds, words⟩ := first front frontSpelt
  obtain ⟨grafts, stocks, laterSeeds, laterWords⟩ := steps_patched e.steps steps back backSpelt
  have whole := Phrase.associate_grows Graft.grows ⟨g, grafts⟩
  have stockEq : Phrase.map Graft.stock ⟨g, grafts⟩ = e := by
    rw [Phrase.map, stock, stocks]
  refine ⟨Phrase.map Graft.grown ⟨g, grafts⟩, ?_, ?_⟩
  · rw [Phrase.tree, Phrase.tree, ← stockEq, Phrase.map_map, Phrase.map_map, List.filterMap_append,
      ← seeds, ← laterSeeds]
    exact whole
  · rw [Phrase.words_eq, List.flatMap_append, ← words, ← laterWords]
    simp [Phrase.map, List.flatMap_map]

theorem Primary.patched (p : Primary) : p.Patched := by
  induction p with
  | atom name =>
      intro patches spelt
      obtain ⟨⟨word, primary⟩, rfl, rfl⟩ := List.map_eq_singleton_iff.mp spelt
      refine ⟨⟨.atom name, [primary.tree], primary, rfl, rfl⟩, rfl, rfl, ?_⟩
      simp [Patch.words]
  | negation p ih =>
      intro patches spelt
      obtain ⟨⟨word, primary⟩, more, rfl, rfl, moreSpelt⟩ := List.map_eq_cons_iff.mp spelt
      obtain ⟨⟨stock, seeds, grown, grows⟩, rfl, rfl, words⟩ := ih more moreSpelt
      refine ⟨⟨.negation stock, _, .negation grown, ⟨grows.1, ?_⟩⟩, rfl, rfl, ?_⟩
      · exact congrArg Formula.negation grows.2
      · simp [Patch.words, words]
  | group e first steps =>
      intro patches spelt
      rw [words_group] at spelt
      obtain ⟨⟨word, primary⟩, more, rfl, rfl, moreSpelt⟩ := List.map_eq_cons_iff.mp spelt
      obtain ⟨inner, last, rfl, innerSpelt, lastSpelt⟩ := List.map_eq_append_iff.mp moreSpelt
      obtain ⟨⟨lastWord, other⟩, rfl, rfl⟩ := List.map_eq_singleton_iff.mp lastSpelt
      obtain ⟨f, grows, words⟩ := phrase_patched e first steps inner innerSpelt
      rw [← tree_group, ← tree_group] at grows
      refine ⟨⟨.group e, inner.filterMap Patch.seed?, .group f, grows⟩, rfl, ?_, ?_⟩
      · simp [List.filterMap_cons, Patch.seed?]
      · simp [Patch.words, words]

/-- Patches for the words of a phrase make another phrase, and its formula grows from the formulas
of the patches. -/
theorem Phrase.patched (e : Phrase Primary) (patches : List Patch)
    (spelt : patches.map Patch.word = e.words) :
    ∃ f : Phrase Primary, e.tree.Grows (patches.filterMap Patch.seed?) f.tree ∧
      f.words = patches.flatMap Patch.words :=
  phrase_patched e e.first.patched (fun step _ => step.2.patched) patches spelt

end Propositional
