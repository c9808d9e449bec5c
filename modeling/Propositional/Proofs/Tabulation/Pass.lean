import Propositional.Proofs.Tabulation
import Propositional.Proofs.Walks.Columns

/-!
# Rows computed column by column

A pass over the columns from left to right computes each of them from those before it. The values
that no column has used yet wait on a stack, and a column takes the values of its operands from
there, the right one first, or from the assignment where an operand is an atom.

`run_parts`: the parts of a formula leave its value on top of what was waiting. `ofText_computed`:
the pass gives the values of each row of a table, never finds the stack empty, and leaves only the
value of the whole formula on it.
-/

set_option autoImplicit false

namespace Propositional

inductive Stall where
  /-- the value of an operand is not on the stack -/
  | emptyStack
  /-- an atom has no value -/
  | unassigned (name : String)
  /-- the column has no operands, or no connective between them -/
  | noRule
  deriving DecidableEq

structure Pass where
  outputs : List Bool
  waiting : List Bool
  deriving DecidableEq

namespace Pass

def start : Pass :=
  ⟨[], []⟩

def operand (σ : Assignment) (waiting : List Bool) : Formula → Except Stall (Bool × List Bool)
  | .atom name =>
      match σ.get? name with
      | some value => .ok (value, waiting)
      | none => .error (.unassigned name)
  | _ =>
      match waiting with
      | [] => .error .emptyStack
      | value :: rest => .ok (value, rest)

def column (σ : Assignment) (waiting : List Bool) : Formula → Except Stall (Bool × List Bool)
  | .negation inner => do
      let (value, rest) ← operand σ waiting inner
      return (!value, rest)
  | .binary c left right => do
      let (after, below) ← operand σ waiting right
      let (before, rest) ← operand σ below left
      return (c.apply before after, rest)
  | _ => .error .noRule

def step (σ : Assignment) (pass : Pass) (f : Formula) : Except Stall Pass := do
  let (value, rest) ← column σ pass.waiting f
  return ⟨pass.outputs ++ [value], value :: rest⟩

def run (σ : Assignment) (columns : List Formula) (pass : Pass) : Except Stall Pass :=
  columns.foldlM (step σ) pass

/-- The stack behind the columns of a formula: its value is put on top, unless it is an atom. -/
def behind (truth : String → Bool) (waiting : List Bool) (f : Formula) : List Bool :=
  if f.IsCompound then f.value truth :: waiting else waiting

variable {σ : Assignment} {f left right : Formula} {outputs waiting : List Bool}

theorem run_append {front back : List Formula} {pass next : Pass}
    (taken : run σ front pass = .ok next) : run σ (front ++ back) pass = run σ back next := by
  rw [run] at taken
  rw [run, List.foldlM_append, taken]
  rfl

theorem run_singleton (pass : Pass) : run σ [f] pass = step σ pass f :=
  bind_pure _

theorem operand_behind (concrete : f.Concrete) (covered : σ.Covers f.leaves) :
    operand σ (behind σ.truth waiting f) f = .ok (f.value σ.truth, waiting) := by
  cases f with
  | atom name =>
      have given := covered.get?_eq (List.mem_singleton_self name)
      simp [operand, behind, Formula.IsCompound, Formula.value, given]
  | negation inner => rfl
  | binary c left right => rfl
  | unspecified left right => rfl
  | hole => exact concrete.elim

theorem step_negation (concrete : f.Concrete) (covered : σ.Covers f.leaves) :
    step σ ⟨outputs, behind σ.truth waiting f⟩ (.negation f) =
      .ok ⟨outputs ++ [(Formula.negation f).value σ.truth],
        behind σ.truth waiting (.negation f)⟩ := by
  rw [step, column, operand_behind concrete covered]
  rfl

theorem step_binary {c : Connective} (concrete : (Formula.binary c left right).Concrete)
    (leftCovered : σ.Covers left.leaves) (rightCovered : σ.Covers right.leaves) :
    step σ ⟨outputs, behind σ.truth (behind σ.truth waiting left) right⟩ (.binary c left right) =
      .ok ⟨outputs ++ [(Formula.binary c left right).value σ.truth],
        behind σ.truth waiting (.binary c left right)⟩ := by
  rw [step, column, operand_behind concrete.2 rightCovered]
  dsimp only [bind, Except.bind]
  rw [operand_behind concrete.1 leftCovered]
  rfl

/-- The parts of a formula are computed in their order, whatever was computed before. Nothing of
what was waiting is used. -/
theorem run_parts (concrete : f.Concrete) (covered : σ.Covers f.leaves) :
    run σ f.parts ⟨outputs, waiting⟩ =
      .ok ⟨outputs ++ f.parts.map (·.value σ.truth), behind σ.truth waiting f⟩ := by
  induction f generalizing outputs waiting with
  | atom name =>
      rw [Formula.parts, List.map_nil, List.append_nil]
      rfl
  | negation inner ih =>
      rw [Formula.parts, run_append (ih concrete covered), run_singleton,
        step_negation (f := inner) concrete covered, List.map_append, List.append_assoc]
      rfl
  | binary c left right leftIh rightIh =>
      obtain ⟨leftCovered, rightCovered⟩ := Assignment.covers_append.mp covered
      -- the left side leaves its value below the whole computation of the right side
      rw [Formula.parts, List.append_assoc, run_append (leftIh concrete.1 leftCovered),
        run_append (rightIh concrete.2 rightCovered), run_singleton,
        step_binary concrete leftCovered rightCovered, List.map_append, List.map_append,
        List.append_assoc, List.append_assoc]
      rfl
  | unspecified left right _ _ => exact concrete.elim
  | hole => exact concrete.elim

end Pass

namespace Table

/-- A pass over the columns of a table computes each of its rows. No column finds the stack empty,
and what is left on it is the value of the formula alone, or nothing if there are no columns. -/
theorem ofText_computed (source : String) (frames : Nat) (table : Table)
    (tabulated : Table.ofText source frames = .ok table) (row : Row) (member : row ∈ table.rows) :
    ∃ waiting, Pass.run row.assignment table.columns .start = .ok ⟨row.values, waiting⟩ ∧
      (table.columns = [] → waiting = []) ∧
      (table.columns ≠ [] → ∃ result, waiting = [result] ∧
        table.formula.evaluate frames row.assignment = .ok result) := by
  have faithful := (faithful_of_ofText tabulated).2
  have covered := faithful.row_covers member
  obtain ⟨r, found⟩ := List.mem_iff_getElem?.mp member
  refine ⟨Pass.behind row.assignment.truth [] table.formula, ?_, fun empty => ?_,
    fun hasColumns => ?_⟩
  · rw [(faithful.row_at found).2.2, faithful.columns]
    exact Pass.run_parts faithful.walkable.1 (covered.mono faithful.leaves_subset)
  · rw [faithful.columns] at empty
    have leaf : ¬ table.formula.IsCompound := fun compound => by
      obtain ⟨sides, whole⟩ := Formula.exists_parts_eq_concat compound
      simp [whole] at empty
    exact if_neg leaf
  · rw [faithful.columns] at hasColumns
    have compound := Formula.isCompound_of_mem_parts
      (List.mem_of_getLast? (Formula.getLast?_parts hasColumns))
    exact ⟨_, if_pos compound,
      faithful.evaluate_part (Nat.le_add_right _ 3) covered (.inr rfl)⟩

/-- In `(A ^ -B) v -(A ^ -B)` the conjunction is computed twice, and its first value waits under the
second one until the last column takes both. With the columns in the opposite order the first of
them already finds the stack empty. -/
theorem ofText_computed_repeated :
    let both := Formula.binary .conjunction (.atom "A") (.negation (.atom "B"))
    let formula := Formula.binary .disjunction both (.negation both)
    let row (r : Nat) (values : List Bool) : Row := ⟨Assignment.row ["A", "B"] r, values⟩
    let second := row 1 [true, true, true, true, false, true]
    let table : Table := ⟨⟨formula, ["A", "B"], formula.parts⟩,
      [row 0 [false, false, false, false, true, true], second,
        row 2 [false, false, false, false, true, true],
        row 3 [true, false, true, false, true, true]]⟩
    Table.ofText "(A ^ -B) v -(A ^ -B)" 1 = .ok table ∧ second ∈ table.rows ∧
      Pass.run second.assignment table.columns .start = .ok ⟨second.values, [true]⟩ ∧
      Pass.run second.assignment table.columns.reverse .start = .error .emptyStack := by
  intro both formula row second table
  have read : Formula.ofText "(A ^ -B) v -(A ^ -B)" = .ok formula := by decide +kernel
  have tabulated : Table.ofText "(A ^ -B) v -(A ^ -B)" 1 = .ok table := by
    rw [Table.ofText, Analysis.ofText, read]
    rfl
  have member : second ∈ table.rows := by simp [table]
  obtain ⟨waiting, computed, _, left⟩ := ofText_computed _ 1 table tabulated second member
  obtain ⟨result, rfl, evaluated⟩ := left (List.cons_ne_nil _ _)
  have isTrue : table.formula.evaluate 1 second.assignment = .ok true := rfl
  cases evaluated.symm.trans isTrue
  exact ⟨tabulated, member, computed, rfl⟩

end Table

end Propositional
