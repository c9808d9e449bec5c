import Propositional.Proofs.Walks

/-!
# The first fault of a formula

`evaluate_first_fault`: an evaluation goes through the nodes of a formula from the root on, left
before right, and stops at the first one that it cannot take, an atom without a value or a form
without meaning. Gathering the atoms stops only at a form without meaning, so the atoms that were
gathered tell which assignments give the formula a value, and which name is missing from any other
one.
-/

set_option autoImplicit false

namespace Propositional

namespace Formula

def fault? (σ : Assignment) : Formula → Option EvalError
  | atom name => if σ.get? name = none then some (.unassigned name) else none
  | negation _ => none
  | binary _ _ _ => none
  | unspecified _ _ => some (.walk .undefined)
  | hole => some (.walk .undefined)

def firstFault? (f : Formula) (σ : Assignment) : Option EvalError :=
  f.nodes.findSome? (fault? σ)

variable {f left right : Formula} {σ : Assignment} {levels : Nat}

theorem firstFault?_atom (name : String) :
    (atom name).firstFault? σ = if σ.get? name = none then some (.unassigned name) else none := by
  by_cases missing : σ.get? name = none <;> simp [firstFault?, nodes, fault?, missing]

theorem firstFault?_negation : (negation f).firstFault? σ = f.firstFault? σ :=
  rfl

theorem firstFault?_binary (c : Connective) :
    (binary c left right).firstFault? σ = (left.firstFault? σ).or (right.firstFault? σ) :=
  List.findSome?_append

theorem evaluateWithin_eq_firstFault (low : f.height ≤ levels) :
    f.evaluateWithin σ levels = (f.firstFault? σ).elim (.ok (f.value σ.truth)) .error := by
  induction f generalizing levels with
  | atom name =>
      obtain ⟨below, rfl⟩ := exists_below low
      rw [firstFault?_atom]
      cases given : σ.get? name <;> simp [evaluateWithin, value, Assignment.truth, given]
  | negation operand ih =>
      obtain ⟨below, rfl⟩ := exists_below low
      rw [evaluateWithin, ih (Nat.le_of_succ_le_succ low), firstFault?_negation]
      cases operand.firstFault? σ <;> rfl
  | binary c left right leftIh rightIh =>
      obtain ⟨below, rfl⟩ := exists_below low
      obtain ⟨leftLow, rightLow⟩ := height_binary_le.mp low
      rw [evaluateWithin, leftIh leftLow, rightIh rightLow, firstFault?_binary]
      cases left.firstFault? σ <;> cases right.firstFault? σ <;> rfl
  | unspecified left right _ _ =>
      obtain ⟨below, rfl⟩ := exists_below low
      rfl
  | hole =>
      obtain ⟨below, rfl⟩ := exists_below low
      rfl

/-- The faults of a concrete formula are the names without a value. -/
theorem firstFault?_of_concrete (concrete : f.Concrete) :
    f.firstFault? σ = (f.leaves.find? fun name => σ.get? name = none).map .unassigned := by
  induction f with
  | atom name =>
      rw [firstFault?_atom]
      by_cases missing : σ.get? name = none <;> simp [leaves, missing]
  | negation operand ih => exact ih concrete
  | binary c left right leftIh rightIh =>
      rw [firstFault?_binary, leftIh concrete.1, rightIh concrete.2, leaves, List.find?_append,
        Option.map_or]
  | unspecified left right _ _ => exact concrete.elim
  | hole => exact concrete.elim

section Low

variable {frames : Nat} (low : f.height ≤ evaluationLevels frames)

include low

theorem evaluate_eq_firstFault :
    f.evaluate frames σ = (f.firstFault? σ).elim (.ok (f.value σ.truth)) .error :=
  evaluateWithin_eq_firstFault low

theorem evaluate_succeeds_iff :
    (∃ value, f.evaluate frames σ = .ok value) ↔ f.firstFault? σ = none := by
  rw [evaluate_eq_firstFault low]
  cases f.firstFault? σ <;> simp

theorem evaluate_eq_error_iff (cause : EvalError) :
    f.evaluate frames σ = .error cause ↔ f.firstFault? σ = some cause := by
  rw [evaluate_eq_firstFault low]
  cases f.firstFault? σ <;> simp

end Low

theorem firstFault?_of_atoms {frames : Nat} {names : List String}
    (gathered : f.atoms frames = .ok names) :
    f.firstFault? σ = (names.find? fun name => σ.get? name = none).map .unassigned := by
  obtain ⟨walkable, rfl⟩ := (atoms_eq_ok_iff names).mp gathered
  rw [firstFault?_of_concrete walkable.1, find?_eraseDups]

theorem find?_eq_none_iff_covers {names : List String} :
    (names.find? fun name => σ.get? name = none) = none ↔ σ.Covers names := by
  simp [Assignment.Covers, Option.ne_none_iff_exists']

/-- The truth conditions: what each form of a formula says about the values of its atoms. -/
def Holds (σ : Assignment) : Formula → Prop
  | atom name => σ.get? name = some true
  | negation operand => ¬ operand.Holds σ
  | binary .conjunction left right => left.Holds σ ∧ right.Holds σ
  | binary .disjunction left right => left.Holds σ ∨ right.Holds σ
  | binary .conditional left right => left.Holds σ → right.Holds σ
  | binary .equivalence left right => left.Holds σ ↔ right.Holds σ
  | unspecified _ _ => False
  | hole => False

theorem value_eq_true_iff : f.value σ.truth = true ↔ f.Holds σ := by
  induction f with
  | atom name =>
      rw [value, Holds, Assignment.truth]
      cases σ.get? name <;> simp
  | negation operand ih => rw [value, Holds, ← ih, Bool.not_eq_true', Bool.not_eq_true]
  | binary c left right leftIh rightIh =>
      cases c <;> simp only [value, Holds, ← leftIh, ← rightIh, Connective.apply] <;>
        cases left.value σ.truth <;> cases right.value σ.truth <;> simp
  | unspecified left right _ _ => simp [value, Holds]
  | hole => simp [value, Holds]

/-- A formula has a value exactly if no node of it is at fault, and it is true if the truth
conditions hold; otherwise the error is that of the first such node from the root on, left before
right. The gathering of the atoms and that of the compound parts succeed exactly on the concrete
formulas; then the assignments that give a value are those which cover the atoms, and otherwise the
error names the first atom that has none. -/
theorem evaluate_first_fault (f : Formula) (σ : Assignment) (frames : Nat)
    (few : frames ≤ callerLimit) (low : f.height ≤ 401) :
    ((∃ value, f.evaluate frames σ = .ok value) ↔ ∀ node ∈ f.nodes, fault? σ node = none) ∧
    (∀ value, f.evaluate frames σ = .ok value → (value = true ↔ f.Holds σ)) ∧
    (∀ cause, f.evaluate frames σ = .error cause ↔
      f.nodes.findSome? (fault? σ) = some cause) ∧
    ((∃ names, f.atoms frames = .ok names) ↔ f.Concrete) ∧
    ((∃ columns, f.compounds frames = .ok columns) ↔ f.Concrete) ∧
    ∀ names, f.atoms frames = .ok names →
      ((∃ value, f.evaluate frames σ = .ok value) ↔ σ.Covers names) ∧
      ∀ cause, f.evaluate frames σ = .error cause ↔
        ∃ name, names.find? (fun name => σ.get? name = none) = some name ∧
          cause = .unassigned name := by
  have enterable : f.height ≤ evaluationLevels frames :=
    Nat.le_trans low (le_evaluationLevels (Nat.le_add_right_of_le few))
  have gatherable : f.height ≤ gatheringLevels frames :=
    Nat.le_trans low (le_evaluationLevels (Nat.add_le_add few (by decide)))
  refine ⟨?_, fun value evaluated => ?_, fun cause => evaluate_eq_error_iff enterable cause,
    ?_, ?_, fun names gathered => ?_⟩
  · rw [evaluate_succeeds_iff enterable]
    exact List.findSome?_eq_none_iff
  · rw [((evaluateWithin_eq_ok_iff value).mp evaluated).2]
    exact value_eq_true_iff
  · simp [atoms_eq_ok_iff, Walkable, gatherable]
  · simp [compounds, compoundsWithin_eq_ok_iff, Walkable, gatherable]
  · have fault := @firstFault?_of_atoms f σ frames names gathered
    constructor
    · rw [evaluate_succeeds_iff enterable, fault, Option.map_eq_none_iff, find?_eq_none_iff_covers]
    · intro cause
      rw [evaluate_eq_error_iff enterable, fault, Option.map_eq_some_iff]
      exact exists_congr fun name => and_congr_right fun _ => eq_comm

/-- `B ^ (-C v A)` is evaluated under three assignments. Where `C` and `A` have no value, the error
names `C`, although `B` is false and decides the conjunction. Where all three atoms have values, the
formula is true or false as its truth conditions say. -/
theorem evaluate_first_fault_decided :
    let f := binary .conjunction (atom "B") (binary .disjunction (negation (atom "C")) (atom "A"))
    let decided := Assignment.ofList [("B", false)]
    let favourable := Assignment.ofList [("A", false), ("B", true), ("C", false)]
    let adverse := Assignment.ofList [("A", false), ("B", true), ("C", true)]
    1 ≤ callerLimit ∧ f.height ≤ 401 ∧ f.evaluate 1 decided = .error (.unassigned "C") ∧
      f.atoms 1 = .ok ["B", "C", "A"] ∧ ¬ decided.Covers ["B", "C", "A"] ∧
      (∃ columns, f.compounds 1 = .ok columns) ∧
      f.evaluate 1 favourable = .ok true ∧ f.Holds favourable ∧
      f.evaluate 1 adverse = .ok false ∧ ¬ f.Holds adverse := by
  intro f decided favourable adverse
  have few : 1 ≤ callerLimit := by decide
  have low : f.height ≤ 401 := by decide
  obtain ⟨_, _, errors, _, compounds, gathered⟩ := evaluate_first_fault f decided 1 few low
  have fault : f.evaluate 1 decided = .error (.unassigned "C") := (errors _).mpr (by decide)
  have atoms : f.atoms 1 = .ok ["B", "C", "A"] := by decide
  have covers := (gathered _ atoms).1
  have missing : ¬ decided.Covers ["B", "C", "A"] := by
    rw [← covers, fault]
    rintro ⟨value, run⟩
    cases run
  have isTrue : f.evaluate 1 favourable = .ok true := by decide
  have isFalse : f.evaluate 1 adverse = .ok false := by decide
  have holds := (evaluate_first_fault f favourable 1 few low).2.1 true isTrue
  have fails := (evaluate_first_fault f adverse 1 few low).2.1 false isFalse
  exact ⟨few, low, fault, atoms, missing, compounds.mpr ⟨trivial, trivial, trivial⟩, isTrue,
    holds.mp rfl, isFalse, fun holding => Bool.false_ne_true (fails.mpr holding)⟩

end Formula

end Propositional
