import Mathlib.Order.MinMax
import Propositional.Proofs.Alternation

/-!
# The height of accepted formulas

The nesting limit bounds the expressions that are open at a time while a formula is read. An
expression is open over a negated operand, over a right operand and over a group, but not over a
left operand, which was read before its connective was seen.

`height_of_accepted`: the limit bounds the paths of the formula with their steps to left operands
left out, and the height exceeds it at most by the number of such steps on a path.
`limit_lt_height_alternating` is a formula that is higher than the limit.
-/

set_option autoImplicit false

namespace Propositional

namespace Formula

/-- The number of nodes on a path, steps to left operands not counted, at most. -/
def nesting : Formula → Nat
  | atom _ => 1
  | negation operand => operand.nesting + 1
  | binary _ left right => max left.nesting (right.nesting + 1)
  | unspecified left right => max left.nesting (right.nesting + 1)
  | hole => 1

/-- The number of steps to left operands on a path, at most. -/
def wraps : Formula → Nat
  | atom _ => 0
  | negation operand => operand.wraps
  | binary _ left right => max (left.wraps + 1) right.wraps
  | unspecified left right => max (left.wraps + 1) right.wraps
  | hole => 0

/-- No left operand is higher than the right operand beside it. -/
def LeansRight : Formula → Prop
  | atom _ => True
  | negation operand => operand.LeansRight
  | binary _ left right => left.height ≤ right.height ∧ left.LeansRight ∧ right.LeansRight
  | unspecified left right => left.height ≤ right.height ∧ left.LeansRight ∧ right.LeansRight
  | hole => True

theorem height_le_nesting_add_wraps (f : Formula) : f.height ≤ f.nesting + f.wraps := by
  induction f with
  | atom name => exact Nat.le_refl 1
  | negation operand ih =>
      simp only [height, nesting, wraps]
      omega
  | binary c left right leftIh rightIh =>
      simp only [height, nesting, wraps]
      omega
  | unspecified left right leftIh rightIh =>
      simp only [height, nesting, wraps]
      omega
  | hole => exact Nat.le_refl 1

theorem height_le_nesting {f : Formula} (leansRight : f.LeansRight) : f.height ≤ f.nesting := by
  induction f with
  | atom name => exact Nat.le_refl 1
  | negation operand ih =>
      have inner := ih leansRight
      simp only [height, nesting]
      omega
  | binary c left right leftIh rightIh =>
      obtain ⟨lower, _, rightLeans⟩ := leansRight
      have inner := rightIh rightLeans
      simp only [height, nesting]
      omega
  | unspecified left right leftIh rightIh =>
      obtain ⟨lower, _, rightLeans⟩ := leansRight
      have inner := rightIh rightLeans
      simp only [height, nesting]
      omega
  | hole => exact Nat.le_refl 1

end Formula

/-! ## The nesting of the formula of a phrase -/

/-- The nested formula of a run is a right operand, which is one level more. -/
theorem Run.nesting_nest (r : Run Formula) :
    r.nest.nesting + 1 = (r.map Formula.nesting).need := by
  obtain ⟨c, first, others⟩ := r
  change (Formula.nest c first others).nesting + 1 =
    needFrom 0 (first.nesting :: others.map Formula.nesting)
  induction others generalizing first with
  | nil =>
      rw [List.map_nil, needFrom_cons, Formula.nest, needFrom]
      omega
  | cons next rest ih =>
      rw [List.map_cons, needFrom_cons, ← ih next, Formula.nest, Formula.nesting]
      omega

theorem Phrase.nesting_associate (e : Phrase Formula) :
    e.associate.nesting = (e.map Formula.nesting).deepest := by
  rw [associate, deepest, runs_map, List.map_map]
  change _ = max e.first.nesting _
  generalize e.runs = runs
  generalize e.first = left
  induction runs generalizing left with
  | nil => simp
  | cons r runs ih =>
      have right := r.nesting_nest
      rw [List.foldl_cons, ih, Formula.nesting, right, List.map_cons, List.foldr_cons,
        Function.comp_apply, Nat.max_assoc]

section Monotone

variable {α : Type} {f g : α → Nat}

theorem Run.needFrom_le {items : List α} (le : ∀ item ∈ items, f item ≤ g item) (before : Nat) :
    needFrom before (items.map f) ≤ needFrom before (items.map g) := by
  induction items generalizing before with
  | nil => exact Nat.le_refl _
  | cons item rest ih =>
      have first := le item (List.mem_cons_self ..)
      have later := ih (fun other member => le other (List.mem_cons_of_mem _ member)) (before + 1)
      simp only [List.map_cons, needFrom]
      omega

theorem Phrase.deepest_le (e : Phrase α) (first : f e.first ≤ g e.first)
    (steps : ∀ step ∈ e.steps, f step.2 ≤ g step.2) : (e.map f).deepest ≤ (e.map g).deepest := by
  have runsLe : ∀ r ∈ e.runs, (r.map f).need ≤ (r.map g).need := by
    intro r runMember
    refine @Run.needFrom_le α f g r.items (fun item itemMember => ?_) 0
    exact steps (r.connective, item) (e.mem_steps_of_mem_items runMember itemMember)
  have allLe : (e.runs.map fun r => (r.map f).need).foldr max 0 ≤
      (e.runs.map fun r => (r.map g).need).foldr max 0 := by
    generalize e.runs = runs at runsLe
    induction runs with
    | nil => exact Nat.le_refl _
    | cons r runs ih =>
        have head := runsLe r (List.mem_cons_self ..)
        have tail := ih fun s member => runsLe s (List.mem_cons_of_mem _ member)
        simp only [List.map_cons, List.foldr_cons]
        omega
  rw [deepest, deepest, runs_map, runs_map, List.map_map, List.map_map]
  exact max_le_max first allLe

end Monotone

theorem Phrase.nesting_tree_of_items (e : Phrase Primary)
    (first : e.first.tree.nesting ≤ e.first.need)
    (steps : ∀ step ∈ e.steps, step.2.tree.nesting ≤ step.2.need) :
    e.tree.nesting ≤ e.need := by
  have items : (e.map Primary.tree).map Formula.nesting = e.map fun p => p.tree.nesting := by
    simp [Phrase.map]
  rw [Phrase.tree, nesting_associate, items]
  exact Phrase.deepest_le e first steps

theorem Primary.nesting_tree (p : Primary) : p.tree.nesting ≤ p.need := by
  induction p with
  | atom name => exact Nat.le_refl 1
  | negation p ih =>
      rw [tree_negation, need_negation, Formula.nesting]
      omega
  | group e first steps =>
      have inside := Phrase.nesting_tree_of_items e first steps
      rw [tree_group, need_group]
      omega

/-- Groups can make a phrase need more than the nesting of its formula, but nothing makes it need
less. -/
theorem Phrase.nesting_tree (e : Phrase Primary) : e.tree.nesting ≤ e.need :=
  Phrase.nesting_tree_of_items e e.first.nesting_tree fun step _ => step.2.nesting_tree

/-! ## The height of what is read -/

/-- What is read has at most 250 nodes on a path, steps to left operands not counted. Its height
exceeds 250 at most by the number of those steps, and not at all if the right operands are the
higher ones. -/
theorem height_of_accepted (f : Formula)
    (accepted : (∃ source, Formula.ofText source = .ok f) ∨
      ∃ tokens : List Token, Formula.ofTokens (tokens.map some) = .ok f) :
    f.nesting ≤ 250 ∧ f.height ≤ 250 + f.wraps ∧ (f.LeansRight → f.height ≤ 250) := by
  have read : ∃ tokens : List Token, Formula.ofTokens (tokens.map some) = .ok f := by
    rcases accepted with ⟨source, accepted⟩ | accepted
    · obtain ⟨tokens, _, read⟩ := ofText_eq_ok source f accepted
      exact ⟨tokens, read⟩
    · exact accepted
  obtain ⟨tokens, read⟩ := read
  obtain ⟨e, _, covered, rfl⟩ := derives_of_ofTokens tokens f read
  have nested : e.tree.nesting ≤ 250 := Nat.le_trans e.nesting_tree covered
  refine ⟨nested, ?_, fun leansRight => ?_⟩
  · have bound := e.tree.height_le_nesting_add_wraps
    omega
  · exact Nat.le_trans (Formula.height_le_nesting leansRight) nested

/-- The bound is reached: the connective behind 249 negations adds a level. -/
theorem height_of_accepted_wrapped :
    let wrapped := Formula.binary .conjunction (Formula.negation^[249] (.atom "A")) (.atom "B")
    let leaning := Formula.binary .conditional (.atom "A") (.negation (.atom "B"))
    (∃ tokens : List Token, Formula.ofTokens (tokens.map some) = .ok wrapped) ∧
      wrapped.nesting ≤ 250 ∧ wrapped.height ≤ 250 + wrapped.wraps ∧
      wrapped.height = 251 ∧ wrapped.wraps = 1 ∧
      Formula.ofText "A -> -B" = .ok leaning ∧ leaning.height ≤ 250 := by
  intro wrapped leaning
  let tokens : List Token := List.replicate 249 { kind := .negation, raw := "-" } ++
    [{ kind := .atom, raw := "A" }, { kind := .connective .conjunction, raw := "^" },
      { kind := .atom, raw := "B" }]
  let phrase : Phrase Primary :=
    ⟨Primary.negation^[249] (.atom "A"), [(.conjunction, .atom "B")]⟩
  have read : Formula.ofTokens (tokens.map some) = .ok phrase.tree :=
    (ofTokens_of_derives tokens phrase (by decide +kernel)).1 (by decide +kernel)
      (by decide +kernel)
  have treeEq : phrase.tree = wrapped := by decide +kernel
  rw [treeEq] at read
  obtain ⟨nested, bound, _⟩ := height_of_accepted wrapped (.inr ⟨tokens, read⟩)
  have leaningRead : Formula.ofText "A -> -B" = .ok leaning := by decide +kernel
  have leansRight : leaning.LeansRight := ⟨by decide, trivial, trivial⟩
  obtain ⟨_, _, low⟩ := height_of_accepted leaning (.inl ⟨_, leaningRead⟩)
  exact ⟨⟨tokens, read⟩, nested, bound, by decide +kernel, by decide +kernel, leaningRead,
    low leansRight⟩

/-- A chain can be read that is higher than the limit. -/
theorem limit_lt_height_alternating :
    let source := alternatingText "A" .conjunction .disjunction 250
    let formula := alternate "A" .conjunction .disjunction 250 (.atom "A")
    Formula.ofText source = .ok formula ∧ formula.height = 251 := by
  intro source formula
  have letter : IsLetter "A" := ⟨'A', rfl, by decide⟩
  exact ⟨ofText_alternating letter (by decide) 250 (by decide),
    height_alternate 250 (.atom "A") Nat.one_pos⟩

end Propositional
