import Propositional.Proofs.Layout
import Propositional.Proofs.Reading.Acceptance
import Propositional.Proofs.Reading.Verdict
import Propositional.Proofs.Tabulation.Building

/-!
# Outcomes on the way from a text to its grid

`ofText_outcome`: a text can be refused by the scan or by the reader, and a formula can be too high
to be gathered or evaluated. No other error occurs. What was read holds no hole and no binary node
without a connective, its atoms have values in every row and are at most as many as the letters, and
so a table that is built is also evaluated and printed. `ofText_succeeds_iff` gives the heights that
have a table for a caller.
-/

set_option autoImplicit false

namespace Propositional

open Formula

theorem ne_gap_of_ofTokens {tokens : List Token} {cause : ParseError}
    (refused : Formula.ofTokens (tokens.map some) = .error cause) : cause ≠ .gap := by
  rintro rfl
  have expressed := verdict_of_error refused (by decide)
  cases expressed

theorem Formula.ofText_error {source : String} {cause : FormulaError}
    (refused : Formula.ofText source = .error cause) :
    (∃ e, cause = .lex e) ∨ ∃ e, e ≠ .gap ∧ cause = .parse e := by
  rcases bind_eq_error refused with scanned | ⟨tokens, _, read⟩
  · obtain ⟨e, _, rfl⟩ := mapError_eq_error scanned
    exact .inl ⟨e, rfl⟩
  · obtain ⟨e, unread, rfl⟩ := mapError_eq_error read
    exact .inr ⟨e, ne_gap_of_ofTokens unread, rfl⟩

theorem concrete_of_ofText {source : String} {f : Formula}
    (read : Formula.ofText source = .ok f) : f.Concrete :=
  concrete_of_lettered f (lettered_of_ofText source f read)

theorem length_atoms_of_ofText {source : String} {f : Formula}
    (read : Formula.ofText source = .ok f) : f.leaves.eraseDups.length ≤ 26 := by
  have letters : f.leaves.eraseDups ⊆ capitals := fun name member =>
    (letter_of_mem_leaves (lettered_of_ofText source f read)
      (List.mem_eraseDups.mp member)).mem_capitals
  exact (List.subperm_of_subset (nodup_eraseDups _) letters).length_le

theorem Analysis.ofFormula_error {f : Formula} {frames : Nat} (concrete : f.Concrete)
    {cause : WalkError} (failed : Analysis.ofFormula f frames = .error cause) :
    cause = .tooDeep := by
  rcases bind_eq_error failed with atomsFailed | ⟨names, gathered, failed⟩
  · rcases bind_eq_error atomsFailed with walked | ⟨names, _, returned⟩
    · exact atomsWithin_error concrete walked
    · cases returned
  · have walkable := ((atoms_eq_ok_iff names).mp gathered).1
    have compounds : f.compounds frames = .ok f.parts :=
      (compoundsWithin_eq_ok_iff f.parts).mpr ⟨walkable, rfl⟩
    rw [compounds] at failed
    cases failed

namespace Table

section Read

variable {source : String} {f : Formula} (read : Formula.ofText source = .ok f) (frames : Nat)

include read

theorem announceable_of_ofText : f.leaves.eraseDups.length ≤ 14284 :=
  Nat.le_trans (length_atoms_of_ofText read) (by decide)

theorem ofText_of_gathered (low : f.height ≤ gatheringLevels (frames + 2)) :
    Table.ofText source frames =
      (Table.ofAnalysis ⟨f, f.leaves.eraseDups, f.parts⟩ (frames + 1)).mapError .table := by
  have analysed := (Analysis.ofFormula_eq_ok_iff _).mpr ⟨⟨concrete_of_ofText read, low⟩, rfl⟩
  rw [Table.ofText, Analysis.ofText, read]
  change (((Analysis.ofFormula f (frames + 2)).mapError _) >>= _) = _
  rw [analysed]
  rfl

theorem ofText_of_tall (tall : gatheringLevels (frames + 2) < f.height) :
    Table.ofText source frames = .error (.parse .tooTall) := by
  have refused : ∃ cause, Analysis.ofFormula f (frames + 2) = .error cause := by
    cases walked : Analysis.ofFormula f (frames + 2) with
    | error cause => exact ⟨cause, rfl⟩
    | ok a =>
        have walkable := ((Analysis.ofFormula_eq_ok_iff a).mp walked).1
        exact absurd walkable.2 (Nat.not_le.mpr tall)
  obtain ⟨cause, walked⟩ := refused
  rw [Table.ofText, Analysis.ofText, read]
  change (((Analysis.ofFormula f (frames + 2)).mapError _) >>= _) = _
  rw [walked]
  rfl

theorem exists_ofAnalysis (printable : f.height ≤ printLimit)
    (low : ∀ column ∈ f.parts, column.height ≤ evaluationLevels (frames + 3)) :
    ∃ t, Table.ofAnalysis ⟨f, f.leaves.eraseDups, f.parts⟩ frames = .ok t := by
  have concrete := concrete_of_ofText read
  have listed : ∀ column ∈ f.parts, column.Listed f.leaves.eraseDups := fun column member =>
    ⟨(walkable_of_mem_parts ⟨concrete, Nat.le_refl _⟩ member).1, fun name inside =>
      List.mem_eraseDups.mpr (leaves_of_mem_parts member inside)⟩
  have holeless : hole ∉ f.nodes := holeFree_iff.mp (holeFree_of_concrete f concrete)
  exact ⟨_, (ofAnalysis_eq_ok_iff (announceable_of_ofText read) printable low _).mpr
    ⟨⟨listed, holeless⟩, rfl⟩⟩

/-- Gathering the parts of a formula takes one frame more than is left for evaluating them, so a
formula that could be gathered may still be too high for its table. -/
theorem ofText_succeeds_iff :
    (∃ t, Table.ofText source frames = .ok t) ↔
      f.height ≤ gatheringLevels (frames + 2) ∧
        ∀ column ∈ f.parts, column.height ≤ evaluationLevels (frames + 4) := by
  by_cases low : f.height ≤ gatheringLevels (frames + 2)
  · rw [ofText_of_gathered read frames low, and_iff_right low]
    constructor
    · rintro ⟨t, built⟩ column member
      have announceable := (announceable_iff _).mpr (announceable_of_ofText read)
      rw [Table.ofAnalysis, if_pos announceable] at built
      obtain ⟨rows, run, _⟩ := bind_eq_ok (mapError_eq_ok_iff.mp built)
      have first : 0 < Assignment.rowCount f.leaves.eraseDups.length := Nat.two_pow_pos _
      obtain ⟨row, _, computed⟩ :=
        getElem?_of_mapM (mapError_eq_ok_iff.mp run) (List.getElem?_range first)
      obtain ⟨values, evaluated, _⟩ := bind_eq_ok computed
      obtain ⟨i, found⟩ := List.mem_iff_getElem?.mp member
      obtain ⟨value, _, valueEq⟩ := getElem?_of_mapM evaluated found
      exact ((evaluateWithin_eq_ok_iff value).mp valueEq).1.1.2
    · intro columnsLow
      have printable := Nat.le_trans low (evaluationLevels_le _)
      obtain ⟨t, built⟩ := exists_ofAnalysis read (frames + 1) printable columnsLow
      exact ⟨t, mapError_eq_ok_iff.mpr built⟩
  · rw [ofText_of_tall read frames (Nat.lt_of_not_le low)]
    simp [low]

theorem ofText_of_low (low : f.height ≤ evaluationLevels (frames + 4)) :
    ∃ t, Table.ofText source frames = .ok t := by
  have levels := evaluationLevels_anti (Nat.add_le_add_left (by decide : 3 ≤ 4) frames)
  refine (ofText_succeeds_iff read frames).mpr ⟨Nat.le_trans low levels, fun column member => ?_⟩
  exact (walkable_of_mem_parts ⟨concrete_of_ofText read, low⟩ member).2

theorem ofText_error_of_gathered (low : f.height ≤ gatheringLevels (frames + 2))
    {cause : FormulaError} (failed : Table.ofText source frames = .error cause) :
    cause = .table (.evaluate (.walk .tooDeep)) := by
  rw [ofText_of_gathered read frames low] at failed
  obtain ⟨e, unbuilt, rfl⟩ := mapError_eq_error failed
  have announceable := (announceable_iff _).mpr (announceable_of_ofText read)
  rw [Table.ofAnalysis, if_pos announceable] at unbuilt
  rcases bind_eq_error unbuilt with rowsFailed | ⟨rows, _, unprinted⟩
  · obtain ⟨fault, run, rfl⟩ := mapError_eq_error rowsFailed
    obtain ⟨r, _, rowFailed⟩ := exists_error_of_mapM run
    rcases bind_eq_error rowFailed with valuesFailed | ⟨values, _, returned⟩
    · obtain ⟨column, member, columnFailed⟩ := exists_error_of_mapM valuesFailed
      have concrete := (walkable_of_mem_parts ⟨concrete_of_ofText read, low⟩ member).1
      have covered := (Assignment.row_covers (r := r) (nodup_eraseDups f.leaves)).mono
        fun name inside => List.mem_eraseDups.mpr (leaves_of_mem_parts member inside)
      rw [evaluateWithin_error concrete covered columnFailed]
    · cases returned
  · have printable : f.height ≤ printLimit := Nat.le_trans low (evaluationLevels_le _)
    rw [text_eq_rendering f (concrete_of_ofText read) printable] at unprinted
    cases unprinted

/-- The formula is the last of its columns, and the one that takes the most levels. -/
theorem ofText_of_deep (low : f.height ≤ gatheringLevels (frames + 2))
    (deep : evaluationLevels (frames + 4) < f.height) (compound : f.parts ≠ []) :
    Table.ofText source frames = .error (.table (.evaluate (.walk .tooDeep))) := by
  cases tabulated : Table.ofText source frames with
  | error cause => rw [ofText_error_of_gathered read frames low tabulated]
  | ok t =>
      have columns := ((ofText_succeeds_iff read frames).mp ⟨t, tabulated⟩).2
      have last := List.mem_of_getLast? (getLast?_parts compound)
      exact absurd (columns f last) (Nat.not_le.mpr deep)

end Read

theorem ofText_error {source : String} {frames : Nat} {cause : FormulaError}
    (refused : Table.ofText source frames = .error cause) :
    (∃ e, cause = .lex e) ∨ (∃ e, e ≠ .gap ∧ cause = .parse e) ∨
      ∃ f, Formula.ofText source = .ok f ∧ f.height ≤ gatheringLevels (frames + 2) ∧
        evaluationLevels (frames + 4) < f.height ∧
        cause = .table (.evaluate (.walk .tooDeep)) := by
  cases read : Formula.ofText source with
  | error e =>
      rw [Table.ofText, Analysis.ofText, read] at refused
      cases refused
      exact (Formula.ofText_error read).imp_right .inl
  | ok f =>
      rcases Nat.lt_or_ge (gatheringLevels (frames + 2)) f.height with tall | low
      · cases (ofText_of_tall read frames tall).symm.trans refused
        exact .inr (.inl ⟨.tooTall, by decide, rfl⟩)
      · have deep : evaluationLevels (frames + 4) < f.height := by
          by_contra shallow
          obtain ⟨t, tabulated⟩ := ofText_of_low read frames (Nat.le_of_not_lt shallow)
          cases tabulated.symm.trans refused
        exact .inr (.inr ⟨f, rfl, low, deep, ofText_error_of_gathered read frames low refused⟩)

theorem length_of_mem_atoms {source : String} {frames : Nat} {t : Table}
    (tabulated : Table.ofText source frames = .ok t) : ∀ name ∈ t.atoms, name.length = 1 := by
  intro name member
  obtain ⟨read, faithful⟩ := faithful_of_ofText tabulated
  rw [faithful.atoms, List.mem_eraseDups] at member
  obtain ⟨c, rfl, _⟩ := letter_of_mem_leaves (lettered_of_ofText source _ read) member
  exact String.length_singleton

/-- A text is refused by the scan or by the reader, or it has a table, and a table has its results
and its grid. The reader refuses no gap, which texts do not have; and what was read fails only for
its height, which takes more than 401 levels. -/
theorem ofText_outcome (source : String) (frames : Nat) (few : frames ≤ callerLimit) :
    (∀ cause, Table.ofText source frames = .error cause →
      (∃ e, cause = .lex e) ∨ (∃ e, e ≠ .gap ∧ cause = .parse e) ∨
      ∃ f, Formula.ofText source = .ok f ∧ 401 < f.height ∧
        cause = .table (.evaluate (.walk .tooDeep))) ∧
    (∀ f, Formula.ofText source = .ok f →
      (∀ cause, Analysis.ofFormula f frames = .error cause → cause = .tooDeep) ∧
      (f.height ≤ 401 → ∃ t, Table.ofText source frames = .ok t)) ∧
    (∀ a, Analysis.ofText source frames = .ok a → a.formula.height ≤ 401 →
      ∃ t, Table.ofAnalysis a frames = .ok t) ∧
    ∀ t, Table.ofText source frames = .ok t →
      (∃ results, t.result frames = .ok results) ∧ ∃ lines, Grid.lines t = .ok lines := by
  have enough : 401 ≤ evaluationLevels (frames + 4) :=
    le_evaluationLevels (Nat.add_le_add few (by decide))
  refine ⟨fun cause refused => ?_, fun f read => ⟨fun cause => ?_, fun low => ?_⟩,
    fun a analysed low => ?_, fun t tabulated => ?_⟩
  · rcases ofText_error refused with lex | parse | ⟨f, read, _, deep, rfl⟩
    · exact .inl lex
    · exact .inr (.inl parse)
    · exact .inr (.inr ⟨f, read, Nat.lt_of_le_of_lt enough deep, rfl⟩)
  · exact Analysis.ofFormula_error (concrete_of_ofText read)
  · exact ofText_of_low read frames (Nat.le_trans low enough)
  · obtain ⟨f, read, walked⟩ := bind_eq_ok analysed
    obtain ⟨walkable, rfl⟩ := (Analysis.ofFormula_eq_ok_iff a).mp (mapError_eq_ok_iff.mp walked)
    have levels := le_evaluationLevels (Nat.add_le_add few (by decide : 3 ≤ 8))
    refine exists_ofAnalysis read frames (Nat.le_trans low (by decide)) fun column member => ?_
    exact (walkable_of_mem_parts ⟨walkable.1, Nat.le_trans low levels⟩ member).2
  · have faithful := (faithful_of_ofText tabulated).2
    exact ⟨⟨_, faithful.result_eq⟩, _, faithful.lines_eq (length_of_mem_atoms tabulated)⟩

theorem ofText_outcome_group :
    let f := Formula.binary .disjunction (.atom "A")
      (.binary .conditional (.negation (.atom "B")) (.atom "A"))
    1 ≤ callerLimit ∧ Formula.ofText "A v (-B -> A)" = .ok f ∧ f.height ≤ 401 ∧
      ∃ t, Table.ofText "A v (-B -> A)" 1 = .ok t ∧ (∃ results, t.result 1 = .ok results) ∧
        ∃ lines, Grid.lines t = .ok lines := by
  intro f
  have few : 1 ≤ callerLimit := by decide
  have read : Formula.ofText "A v (-B -> A)" = .ok f := by decide +kernel
  have low : f.height ≤ 401 := by decide
  obtain ⟨_, readable, _, printable⟩ := ofText_outcome "A v (-B -> A)" 1 few
  obtain ⟨t, tabulated⟩ := (readable f read).2 low
  exact ⟨few, read, low, t, tabulated, printable t tabulated⟩

end Table

end Propositional
