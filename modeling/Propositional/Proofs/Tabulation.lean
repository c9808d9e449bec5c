import Propositional.Proofs.Enumeration.Rows
import Propositional.Proofs.Walks
import Propositional.Table

/-!
# Truth tables are sound and complete

`ofText_rows`: a truth table has exactly one row for every assignment of its atoms, and the values
in the row are those of the columns under every assignment that agrees with it there. By
`faithful_of_ofText` the columns are the compound parts of the formula.
-/

set_option autoImplicit false

namespace Propositional

open Formula

theorem Analysis.ofFormula_eq_ok_iff {f : Formula} {frames : Nat} (a : Analysis) :
    Analysis.ofFormula f frames = .ok a ↔
      f.Walkable (gatheringLevels frames) ∧ a = ⟨f, f.leaves.eraseDups, f.parts⟩ := by
  rw [← and_self (f.Walkable (gatheringLevels frames))]
  exact map₂_eq_ok_iff atoms_eq_ok_iff compoundsWithin_eq_ok_iff (Analysis.mk f)

def Row.filled (columns : List Formula) (σ : Assignment) : Row :=
  ⟨σ, columns.map (·.value σ.truth)⟩

theorem Row.eq_filled {columns : List Formula} {frames : Nat} (σ : Assignment) (row : Row)
    (computed : Row.ofColumns columns frames σ = .ok row) : row = filled columns σ := by
  obtain ⟨values, evaluated, returned⟩ := bind_eq_ok computed
  cases returned
  rw [filled, eq_map_of_mapM (fun column value found => ?_) evaluated]
  exact ((evaluateWithin_eq_ok_iff value).mp found).2

namespace Table

def filled (a : Analysis) : Table :=
  ⟨a, (Assignment.rows a.atoms).map (Row.filled a.columns)⟩

theorem ofAnalysis_eq_ok {a : Analysis} {frames : Nat} {t : Table}
    (built : Table.ofAnalysis a frames = .ok t) : t = filled a := by
  unfold ofAnalysis at built
  split at built
  · obtain ⟨rows, run, returned⟩ := bind_eq_ok built
    have rowsEq := eq_map_of_mapM (fun r => Row.eq_filled _) (mapError_eq_ok_iff.mp run)
    split at returned
    · cases returned
      rw [rowsEq, filled, Assignment.rows, List.map_map]
      rfl
    · cases returned
  · cases built

/-- The table is that of its formula: its columns are the parts of the formula, and it has a row for
every assignment of the atoms. -/
structure Faithful (t : Table) (frames : Nat) : Prop where
  walkable : t.formula.Walkable (gatheringLevels (frames + 2))
  atoms : t.atoms = t.formula.leaves.eraseDups
  columns : t.columns = t.formula.parts
  rows : t.rows = (Assignment.rows t.atoms).map (Row.filled t.columns)

theorem faithful_of_ofText {source : String} {frames : Nat} {table : Table}
    (tabulated : Table.ofText source frames = .ok table) :
    Formula.ofText source = .ok table.formula ∧ table.Faithful frames := by
  obtain ⟨analysis, analysed, built⟩ := bind_eq_ok tabulated
  obtain ⟨f, read, walked⟩ := bind_eq_ok analysed
  obtain ⟨walkable, rfl⟩ := (Analysis.ofFormula_eq_ok_iff analysis).mp
    (mapError_eq_ok_iff.mp walked)
  obtain rfl := ofAnalysis_eq_ok (mapError_eq_ok_iff.mp built)
  exact ⟨read, walkable, rfl, rfl, rfl⟩

namespace Faithful

variable {t : Table} {frames : Nat} (faithful : t.Faithful frames) {σ : Assignment}

include faithful

theorem distinct : t.atoms.Nodup := by
  rw [faithful.atoms]
  exact nodup_eraseDups _

theorem length_rows : t.rows.length = 2 ^ t.atoms.length := by
  rw [faithful.rows, List.length_map, Assignment.rows, List.length_map, List.length_range,
    Assignment.rowCount_eq]

theorem row_at {r : Nat} {row : Row} (found : t.rows[r]? = some row) :
    r < 2 ^ t.atoms.length ∧ row.assignment = Assignment.row t.atoms r ∧
      row.values = t.columns.map (·.value row.assignment.truth) := by
  have inside : r < 2 ^ t.atoms.length := by
    rw [← faithful.length_rows]
    exact (List.getElem?_eq_some_iff.mp found).1
  have range := List.getElem?_range inside
  rw [← Assignment.rowCount_eq] at range
  rw [faithful.rows, List.getElem?_map, Assignment.rows, List.getElem?_map, range] at found
  cases found
  exact ⟨inside, rfl, rfl⟩

theorem leaves_subset : t.formula.leaves ⊆ t.atoms := by
  intro name member
  rw [faithful.atoms]
  exact List.mem_eraseDups.mpr member

/-- What was low enough to be gathered can be evaluated by the same caller, and by one that holds up
to three frames more. -/
theorem evaluate_part {more : Nat} (le : more ≤ frames + 3) (covered : σ.Covers t.atoms)
    {f : Formula} (part : f ∈ t.formula.parts ∨ f = t.formula) :
    f.evaluate more σ = .ok (f.value σ.truth) := by
  have enough := faithful.walkable.mono (evaluationLevels_anti le)
  have known := covered.mono faithful.leaves_subset
  rcases part with inside | rfl
  · exact evaluate_eq_value (walkable_of_mem_parts enough inside)
      (known.mono (leaves_of_mem_parts inside))
  · exact evaluate_eq_value enough known

theorem row_covers {row : Row} (member : row ∈ t.rows) : row.assignment.Covers t.atoms := by
  obtain ⟨r, found⟩ := List.mem_iff_getElem?.mp member
  rw [(faithful.row_at found).2.1]
  exact Assignment.row_covers faithful.distinct

theorem result_eq :
    t.result frames = .ok (t.rows.map fun row => t.formula.value row.assignment.truth) :=
  mapM_eq_ok_map fun _ member =>
    faithful.evaluate_part (Nat.le_succ _) (faithful.row_covers member) (.inr rfl)

theorem last_value (hasColumns : t.columns ≠ []) (truth : String → Bool) :
    t.columns.getLast? = some t.formula ∧
      (t.columns.map (·.value truth)).getLast? = some (t.formula.value truth) := by
  have last : t.columns.getLast? = some t.formula := by
    rw [faithful.columns] at hasColumns ⊢
    exact getLast?_parts hasColumns
  exact ⟨last, by rw [List.getLast?_map, last, Option.map_some]⟩

theorem exists_row (covered : σ.Covers t.atoms) :
    ∃ row, t.rows[σ.rowNumber t.atoms]? = some row ∧
      row.values = t.columns.map (·.value σ.truth) ∧
      t.formula.value row.assignment.truth = t.formula.value σ.truth := by
  have inside : σ.rowNumber t.atoms < t.rows.length := by
    rw [faithful.length_rows]
    exact Assignment.rowNumber_lt
  have found := List.getElem?_eq_getElem inside
  obtain ⟨low, assigned, values⟩ := faithful.row_at found
  have agrees : (t.rows[σ.rowNumber t.atoms]).assignment.AgreesOn σ t.atoms := by
    rw [assigned]
    exact (Assignment.row_agreesOn_iff faithful.distinct covered low).mpr rfl
  have same {f : Formula} (part : f.leaves ⊆ t.formula.leaves) :
      f.value (t.rows[σ.rowNumber t.atoms]).assignment.truth = f.value σ.truth :=
    value_congr fun name member =>
      congrArg (·.getD false) (agrees name (faithful.leaves_subset (part member)))
  refine ⟨_, found, ?_, same (List.Subset.refl _)⟩
  rw [values, faithful.columns]
  exact List.map_congr_left fun column member => same (leaves_of_mem_parts member)

theorem forall_result_iff {results : List Bool} (computed : t.result frames = .ok results) :
    (∀ σ : Assignment, σ.Covers t.atoms → t.formula.evaluate frames σ = .ok true) ↔
      ∀ result ∈ results, result = true := by
  cases computed.symm.trans faithful.result_eq
  rw [List.forall_mem_map]
  constructor
  · intro valid row member
    have covered := faithful.row_covers member
    have evaluated := faithful.evaluate_part (Nat.le_add_right _ 3) covered (.inr rfl)
    exact Except.ok.inj (evaluated.symm.trans (valid row.assignment covered))
  · intro allTrue σ covered
    obtain ⟨row, found, _, value⟩ := faithful.exists_row covered
    rw [faithful.evaluate_part (Nat.le_add_right _ 3) covered (.inr rfl), ← value,
      allTrue row (List.mem_of_getElem? found)]

end Faithful

/-- Each assignment that gives the atoms of a table their values has exactly one row. The row holds
the values of the columns under it, the last of them the value of the formula. So the results are
true throughout exactly when the formula is true under every such assignment. -/
theorem ofText_rows (source : String) (frames : Nat) (table : Table)
    (tabulated : Table.ofText source frames = .ok table) :
    Formula.ofText source = .ok table.formula ∧
      ∃ results, table.result frames = .ok results ∧
        table.rows.length = 2 ^ table.atoms.length ∧ results.length = 2 ^ table.atoms.length ∧
        (∀ σ : Assignment, σ.Covers table.atoms →
          ∃ row result, table.rows[σ.rowNumber table.atoms]? = some row ∧
            results[σ.rowNumber table.atoms]? = some result ∧
            (∀ r other, table.rows[r]? = some other →
              (other.assignment.AgreesOn σ table.atoms ↔ r = σ.rowNumber table.atoms)) ∧
            List.Forall₂ (fun column value => column.evaluate frames σ = .ok value)
              table.columns row.values ∧
            table.formula.evaluate frames σ = .ok result ∧
            (table.columns ≠ [] → table.columns.getLast? = some table.formula ∧
              row.values.getLast? = some result)) ∧
        ((∀ σ : Assignment, σ.Covers table.atoms → table.formula.evaluate frames σ = .ok true) ↔
          ∀ result ∈ results, result = true) := by
  obtain ⟨read, faithful⟩ := faithful_of_ofText tabulated
  have computed := faithful.result_eq
  refine ⟨read, _, computed, faithful.length_rows, ?_, fun σ covered => ?_,
    faithful.forall_result_iff computed⟩
  · rw [List.length_map, faithful.length_rows]
  obtain ⟨row, found, values, value⟩ := faithful.exists_row covered
  refine ⟨row, _, found, ?_, fun r other otherFound => ?_, ?_,
    faithful.evaluate_part (Nat.le_add_right _ 3) covered (.inr rfl), fun hasColumns => ?_⟩
  · rw [List.getElem?_map, found, Option.map_some, value]
  · obtain ⟨inside, assigned, _⟩ := faithful.row_at otherFound
    rw [assigned]
    exact Assignment.row_agreesOn_iff faithful.distinct covered inside
  · rw [values, List.forall₂_map_right_iff, List.forall₂_same, faithful.columns]
    exact fun column member =>
      faithful.evaluate_part (Nat.le_add_right _ 3) covered (.inl member)
  · rw [values]
    exact faithful.last_value hasColumns σ.truth

theorem ofText_rows_conditional :
    let formula := Formula.binary .conditional (.atom "A") (.negation (.atom "B"))
    let row (r : Nat) (values : List Bool) : Row := ⟨Assignment.row ["A", "B"] r, values⟩
    let table : Table := ⟨⟨formula, ["A", "B"], [.negation (.atom "B"), formula]⟩,
      [row 0 [false, false], row 1 [true, true], row 2 [false, true], row 3 [true, true]]⟩
    let σ := Assignment.ofList [("C", false), ("B", true), ("A", false)]
    Table.ofText "A -> -B" 1 = .ok table ∧ σ.Covers table.atoms ∧
      List.Forall₂ (fun column value => column.evaluate 1 σ = .ok value) table.columns [false, true] ∧
      ¬ ∀ τ : Assignment, τ.Covers table.atoms → table.formula.evaluate 1 τ = .ok true := by
  intro formula row table σ
  have read : Formula.ofText "A -> -B" = .ok formula := by decide +kernel
  have tabulated : Table.ofText "A -> -B" 1 = .ok table := by
    rw [Table.ofText, Analysis.ofText, read]
    rfl
  have covered : σ.Covers table.atoms := by
    intro name member
    simp only [table, List.mem_cons, List.not_mem_nil, or_false] at member
    rcases member with rfl | rfl
    · exact ⟨false, by decide⟩
    · exact ⟨true, by decide⟩
  have number : σ.rowNumber table.atoms = 2 := by decide
  obtain ⟨_, results, computed, _, _, rows, valid⟩ := ofText_rows _ 1 table tabulated
  obtain ⟨_, _, found, _, _, values, _, _⟩ := rows σ covered
  have resultsEq : table.result 1 = .ok [false, true, true, true] := rfl
  cases computed.symm.trans resultsEq
  rw [number] at found
  cases found
  refine ⟨tabulated, covered, values, ?_⟩
  rw [valid]
  decide

end Table

end Propositional
