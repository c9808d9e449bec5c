import Propositional.Proofs.Rendering
import Propositional.Proofs.Totality

/-!
# The lines of a grid are aligned

`ofText_aligned`: the header and the rows of a grid have their bars at the same places, because no
text in the header holds a bar (`noBar_titles`) and a row has a cell of the same width under each of
them. The only letter in a cell of a row stands under the middle of the text above and tells the
value (`cell_at`).
-/

set_option autoImplicit false

namespace Propositional

open Formula

/-! ## No text holds a bar -/

theorem Piece.noBar_of_legal {piece : Piece} (legal : piece.Legal) : '|' ∉ piece.chars := by
  intro member
  cases piece with
  | spacing c =>
      cases List.mem_singleton.mp member
      cases legal
  | lexeme kind raw =>
      cases legal with
      | atom name letter =>
          obtain ⟨c, rfl, _, atMost, _⟩ := letter
          rw [chars, String.toList_singleton, List.mem_singleton] at member
          rw [← member] at atMost
          exact absurd atMost (by decide)
      | _ => simp [chars] at member

theorem Formula.noBar_rendering {f : Formula} (lettered : f.Lettered) (outermost : Bool) :
    '|' ∉ (f.rendering outermost).toList := by
  rw [← chars_pieces f (concrete_of_lettered f lettered), List.mem_flatMap]
  rintro ⟨piece, member, inside⟩
  exact Piece.noBar_of_legal (legal_pieces f lettered outermost piece member) inside

theorem Formula.lettered_of_mem_parts {f part : Formula} (lettered : f.Lettered)
    (member : part ∈ f.parts) : part.Lettered :=
  of_mem_parts Lettered (fun _ inside => inside) (fun _ _ _ inside => inside)
    (fun _ _ inside => inside.elim) lettered member

/-! ## Places in framed lines -/

namespace Grid

def bars (line : String) : List Nat :=
  line.toList.findIdxs (· == '|')

/-- A title stands in the header two places behind the bar at `start`. Under its middle character a
line has the letter of a value, and blanks beside it up to the next bar. -/
structure Under (head line : String) (start : Nat) (title : String) (value : Bool) : Prop where
  above : ∀ i < title.length, head.toList[start + 2 + i]? = title.toList[i]?
  letter : line.toList[start + 2 + title.length / 2]? = some (mark value)
  blank : ∀ i, start < i → i < start + title.length + 3 → i ≠ start + 2 + title.length / 2 →
    line.toList[i]? = some ' '

section Places

variable {cells others : List (List Char)} {cell : List Char} {k start i : Nat}

theorem bars_framed (noBar : ∀ cell ∈ cells, '|' ∉ cell) :
    bars (String.ofList (framed cells)) = barPlaces 0 (cells.map List.length) := by
  rw [bars, String.toList_ofList, findIdxs_framed noBar]

theorem exists_bars (found : cells[k]? = some cell) :
    ∃ start, (barPlaces 0 (cells.map List.length))[k]? = some start ∧
      (barPlaces 0 (cells.map List.length))[k + 1]? = some (start + 1 + cell.length) := by
  obtain ⟨front, _, _, here, next⟩ := framed_split found 0
  exact ⟨0 + front.length, here, next⟩

theorem getElem?_framed (found : cells[k]? = some cell)
    (bar : (barPlaces 0 (cells.map List.length))[k]? = some start) (inside : i < cell.length) :
    (framed cells)[start + 1 + i]? = cell[i]? := by
  obtain ⟨front, back, split, here, _⟩ := framed_split found 0
  have startEq : start = front.length := by
    rw [bar, Nat.zero_add] at here
    exact Option.some.inj here
  have behind : start + 1 + i - front.length = i + 1 := by omega
  rw [split, List.getElem?_append_right (by omega), behind, List.getElem?_cons_succ,
    List.getElem?_append_left inside]

theorem under_of_cells {title : String} {value : Bool}
    (headCell : cells[k]? = some (spaced title))
    (lineCell : others[k]? = some (marked title.length value))
    (widths : others.map List.length = cells.map List.length)
    (bar : (barPlaces 0 (cells.map List.length))[k]? = some start) :
    Under (String.ofList (framed cells)) (String.ofList (framed others)) start title value := by
  have lineBar := bar
  rw [← widths] at lineBar
  refine ⟨fun i inside => ?_, ?_, fun i behind before beside => ?_⟩
  · have place : start + 2 + i = start + 1 + (i + 1) := by omega
    rw [String.toList_ofList, place, getElem?_framed headCell bar (by rw [length_spaced]; omega),
      spaced, List.getElem?_cons_succ, List.getElem?_append_left inside]
  · have place : start + 2 + title.length / 2 = start + 1 + (title.length / 2 + 1) := by omega
    rw [String.toList_ofList, place,
      getElem?_framed lineCell lineBar (by rw [length_marked]; omega), getElem?_marked_middle]
  · obtain ⟨j, rfl⟩ : ∃ j, i = start + 1 + j := ⟨i - (start + 1), by omega⟩
    rw [String.toList_ofList, getElem?_framed lineCell lineBar (by rw [length_marked]; omega),
      getElem?_marked_beside value (by omega) (by omega)]

end Places

end Grid

/-! ## The grid of a table -/

namespace Table

def title? (t : Table) (k : Nat) : Option String :=
  if k < t.atoms.length then t.atoms[k]?
  else t.columns[k - t.atoms.length]?.bind (·.text.toOption)

def value? (t : Table) (row : Row) (k : Nat) : Option Bool :=
  if k < t.atoms.length then t.atoms[k]?.bind row.assignment.get?
  else row.values[k - t.atoms.length]?

theorem length_titles (t : Table) : t.titles.length = t.atoms.length + t.columns.length := by
  rw [titles, List.length_append, List.length_map]

namespace Faithful

variable {t : Table} {frames : Nat} (faithful : t.Faithful frames)

include faithful

theorem title?_eq (k : Nat) : t.title? k = t.titles[k]? := by
  rw [title?, titles, List.getElem?_append, List.getElem?_map]
  split
  · rfl
  · cases found : t.columns[k - t.atoms.length]? with
    | none => rfl
    | some column =>
        rw [Option.bind_some, faithful.column_text (List.mem_of_getElem? found)]
        rfl

theorem value?_eq {row : Row} (member : row ∈ t.rows) (k : Nat) :
    t.value? row k = (t.valuesIn row)[k]? := by
  rw [value?, valuesIn, List.getElem?_append, List.length_map, List.getElem?_map]
  split
  · cases found : t.atoms[k]? with
    | none => rfl
    | some name =>
        exact (faithful.row_covers member).get?_eq (List.mem_of_getElem? found)
  · rfl

theorem noBar_titles (lettered : t.formula.Lettered) :
    ∀ title ∈ t.titles, '|' ∉ title.toList := by
  intro title member
  rcases List.mem_append.mp member with member | member
  · rw [faithful.atoms, List.mem_eraseDups] at member
    have letter := letter_of_mem_leaves lettered member
    exact noBar_rendering (f := .atom title) letter true
  · obtain ⟨column, inside, rfl⟩ := List.mem_map.mp member
    rw [faithful.columns] at inside
    exact noBar_rendering (lettered_of_mem_parts lettered inside) true

theorem length_valuesIn {row : Row} (member : row ∈ t.rows) :
    (t.valuesIn row).length = t.titles.length := by
  rw [valuesIn, List.length_append, List.length_map, faithful.length_values member,
    length_titles]

theorem widths_row {row : Row} (member : row ∈ t.rows) :
    (List.zipWith (fun title value => Grid.marked title.length value) t.titles
      (t.valuesIn row)).map List.length = (t.titles.map Grid.spaced).map List.length := by
  have enough := Nat.le_of_eq (faithful.length_valuesIn member).symm
  calc
    _ = List.zipWith (fun title _ => title.length + 2) t.titles (t.valuesIn row) := by
      rw [List.map_zipWith]
      simp only [Grid.length_marked]
    _ = ((t.titles.zip (t.valuesIn row)).map Prod.fst).map fun title => title.length + 2 := by
      rw [List.map_map, ← List.map_uncurry_zip_eq_zipWith]
      rfl
    _ = (t.titles.map Grid.spaced).map List.length := by
      rw [List.map_fst_zip enough, List.map_map]
      exact List.map_congr_left fun title _ => (Grid.length_spaced title).symm

theorem length_rowLine {row : Row} (member : row ∈ t.rows) :
    (t.rowLine row).length = t.headLine.length := by
  rw [rowLine, headLine, Grid.length_framed, Grid.length_framed, faithful.widths_row member]

theorem bars_headLine (lettered : t.formula.Lettered) :
    Grid.bars (String.ofList t.headLine) =
      Grid.barPlaces 0 ((t.titles.map Grid.spaced).map List.length) := by
  refine Grid.bars_framed fun cell member => ?_
  obtain ⟨title, inside, rfl⟩ := List.mem_map.mp member
  have noBar := faithful.noBar_titles lettered title inside
  simp [Grid.spaced, noBar]

theorem bars_rowLine {row : Row} (member : row ∈ t.rows) :
    Grid.bars (String.ofList (t.rowLine row)) =
      Grid.barPlaces 0 ((t.titles.map Grid.spaced).map List.length) := by
  rw [← faithful.widths_row member]
  refine Grid.bars_framed fun cell inside => ?_
  rw [← List.map_uncurry_zip_eq_zipWith] at inside
  obtain ⟨⟨title, value⟩, _, rfl⟩ := List.mem_map.mp inside
  exact Grid.noBar_marked title.length value

theorem cell_at {row : Row} (member : row ∈ t.rows) {k : Nat}
    (inside : k < t.atoms.length + t.columns.length) :
    ∃ start title value, t.title? k = some title ∧ t.value? row k = some value ∧
      (Grid.barPlaces 0 ((t.titles.map Grid.spaced).map List.length))[k]? = some start ∧
      (Grid.barPlaces 0 ((t.titles.map Grid.spaced).map List.length))[k + 1]? =
        some (start + title.length + 3) ∧
      Grid.Under (String.ofList t.headLine) (String.ofList (t.rowLine row)) start title value := by
  rw [← length_titles] at inside
  have valueInside := inside
  rw [← faithful.length_valuesIn member] at valueInside
  have titleFound := List.getElem?_eq_getElem inside
  have valueFound := List.getElem?_eq_getElem valueInside
  generalize t.titles[k] = title at titleFound
  generalize (t.valuesIn row)[k] = value at valueFound
  have headCell : (t.titles.map Grid.spaced)[k]? = some (Grid.spaced title) := by
    rw [List.getElem?_map, titleFound, Option.map_some]
  have lineCell : (List.zipWith (fun title value => Grid.marked title.length value) t.titles
      (t.valuesIn row))[k]? = some (Grid.marked title.length value) := by
    rw [List.getElem?_zipWith, titleFound, valueFound]
  obtain ⟨start, here, next⟩ := Grid.exists_bars headCell
  have stop : start + 1 + (Grid.spaced title).length = start + title.length + 3 := by
    rw [Grid.length_spaced]
    omega
  rw [stop] at next
  refine ⟨start, title, value, ?_, ?_, here, next,
    Grid.under_of_cells headCell lineCell (faithful.widths_row member) here⟩
  · rw [faithful.title?_eq, titleFound]
  · rw [faithful.value?_eq member, valueFound]

end Faithful

/-- A grid has a header, a rule and a line for each row, all of the same length. The lines of the
rows have their bars where the header has them, one in front of the first cell and one behind each
cell. Each cell of a row holds the value of the atom or column over it and blanks, and the letter of
the value stands under the middle of the text, which for an atom is the only letter of its name. -/
theorem ofText_aligned (source : String) (frames : Nat) (t : Table)
    (tabulated : Table.ofText source frames = .ok t) :
    ∃ (head rule : String) (body : List String), Grid.lines t = .ok (head :: rule :: body) ∧
      body.length = 2 ^ t.atoms.length ∧
      (∀ line ∈ rule :: body, line.length = head.length) ∧
      (Grid.bars head).length = t.atoms.length + t.columns.length + 1 ∧
      (∀ line ∈ body, Grid.bars line = Grid.bars head) ∧
      (∀ name ∈ t.atoms, name.length = 1) ∧
      ∀ (r : Nat) (line : String), body[r]? = some line → ∃ row, t.rows[r]? = some row ∧
        ∀ k < t.atoms.length + t.columns.length, ∃ start title value,
          t.title? k = some title ∧ t.value? row k = some value ∧
          (Grid.bars head)[k]? = some start ∧
          (Grid.bars head)[k + 1]? = some (start + title.length + 3) ∧
          Grid.Under head line start title value := by
  obtain ⟨read, faithful⟩ := faithful_of_ofText tabulated
  have letters := length_of_mem_atoms tabulated
  have headBars := faithful.bars_headLine (lettered_of_ofText source _ read)
  refine ⟨_, _, _, faithful.lines_eq letters, ?_, ?_, ?_, ?_, letters, fun r line found => ?_⟩
  · rw [List.length_map, faithful.length_rows]
  · refine List.forall_mem_cons.mpr ⟨by simp, fun line member => ?_⟩
    obtain ⟨row, inside, rfl⟩ := List.mem_map.mp member
    rw [String.length_ofList, String.length_ofList, faithful.length_rowLine inside]
  · rw [headBars, Grid.length_barPlaces, List.length_map, List.length_map, length_titles]
  · intro line member
    obtain ⟨row, inside, rfl⟩ := List.mem_map.mp member
    rw [headBars, faithful.bars_rowLine inside]
  · rw [List.getElem?_map] at found
    obtain ⟨row, rowFound, rfl⟩ := Option.map_eq_some_iff.mp found
    refine ⟨row, rowFound, fun k inside => ?_⟩
    rw [headBars]
    exact faithful.cell_at (List.mem_of_getElem? rowFound) inside

theorem ofText_aligned_negation :
    let formula := Formula.negation (.atom "A")
    let table : Table := ⟨⟨formula, ["A"], [formula]⟩,
      [⟨Assignment.row ["A"] 0, [false]⟩, ⟨Assignment.row ["A"] 1, [true]⟩]⟩
    Table.ofText "-A" 1 = .ok table ∧
      Grid.lines table = .ok ["| A | -A |", "----------", "| T |  F |", "| F |  T |"] ∧
      Grid.bars "| F |  T |" = [0, 4, 9] ∧ Grid.Under "| A | -A |" "| F |  T |" 4 "-A" true := by
  intro formula table
  have read : Formula.ofText "-A" = .ok formula := by decide +kernel
  have tabulated : Table.ofText "-A" 1 = .ok table := by
    rw [Table.ofText, Analysis.ofText, read]
    rfl
  have printed : Grid.lines table =
      .ok ["| A | -A |", "----------", "| T |  F |", "| F |  T |"] := by decide +kernel
  obtain ⟨head, rule, body, lines, _, _, _, aligned, _, cells⟩ :=
    ofText_aligned "-A" 1 table tabulated
  obtain ⟨rfl, rfl, rfl⟩ : "| A | -A |" = head ∧ "----------" = rule ∧ _ = body := by
    simpa using printed.symm.trans lines
  have headBars : Grid.bars "| A | -A |" = [0, 4, 9] := by decide +kernel
  have titleGiven : table.title? 1 = some "-A" := by decide +kernel
  have valueGiven : table.value? ⟨Assignment.row ["A"] 1, [true]⟩ 1 = some true := rfl
  have lineBars := aligned "| F |  T |" (by simp)
  obtain ⟨row, found, cell⟩ := cells 1 "| F |  T |" rfl
  cases found
  obtain ⟨start, title, value, titleEq, valueEq, here, _, under⟩ := cell 1 (by decide)
  rw [headBars] at lineBars here
  cases titleGiven.symm.trans titleEq
  cases valueGiven.symm.trans valueEq
  cases here
  exact ⟨tabulated, printed, lineBars, under⟩

end Table

end Propositional
