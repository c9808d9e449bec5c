import Propositional.Proofs.Rendering
import Propositional.Proofs.Tabulation

/-!
# The lines of a grid

Every line of the grid of a table but the rule is framed: its cells stand between bars, the first
bar in front of the first cell and the last one behind the last cell. The header has a cell for the
text of each atom and column, with a blank on both sides of it, and a row has a cell of the same
width for each of them. So the bars of all framed lines stand at the same places.
-/

set_option autoImplicit false

namespace Propositional

open Formula

namespace Grid

/-! ## Framed lines -/

def framed (cells : List (List Char)) : List Char :=
  '|' :: cells.flatMap fun cell => cell ++ ['|']

/-- The places of the bars around cells of some widths, if the first bar stands at `start`. -/
def barPlaces (start : Nat) : List Nat → List Nat
  | [] => [start]
  | width :: rest => start :: barPlaces (start + 1 + width) rest

section Framed

variable {cells : List (List Char)} {cell : List Char}

theorem framed_cons (cell : List Char) (rest : List (List Char)) :
    framed (cell :: rest) = '|' :: (cell ++ framed rest) := by
  simp [framed]

theorem length_framed (cells : List (List Char)) :
    (framed cells).length = ((cells.map List.length).map (· + 1)).sum + 1 := by
  simp [framed, List.length_flatMap, Function.comp_def]

theorem length_barPlaces (start : Nat) (widths : List Nat) :
    (barPlaces start widths).length = widths.length + 1 := by
  induction widths generalizing start with
  | nil => rfl
  | cons width rest ih => simp [barPlaces, ih]

theorem findIdxs_framed (noBar : ∀ cell ∈ cells, '|' ∉ cell) (start : Nat) :
    (framed cells).findIdxs (· == '|') start = barPlaces start (cells.map List.length) := by
  induction cells generalizing start with
  | nil => rfl
  | cons cell rest ih =>
      obtain ⟨here, later⟩ := List.forall_mem_cons.mp noBar
      have none : cell.findIdxs (· == '|') (start + 1) = [] :=
        List.findIdxs_eq_nil_iff.mpr fun c member => by
          rw [beq_eq_false_iff_ne]
          rintro rfl
          exact here member
      rw [framed_cons, List.findIdxs_cons, List.findIdxs_append, none, ih later]
      simp [barPlaces]

theorem framed_split {k : Nat} (found : cells[k]? = some cell) (start : Nat) :
    ∃ front back, framed cells = front ++ '|' :: (cell ++ '|' :: back) ∧
      (barPlaces start (cells.map List.length))[k]? = some (start + front.length) ∧
      (barPlaces start (cells.map List.length))[k + 1]? =
        some (start + front.length + 1 + cell.length) := by
  induction cells generalizing start k with
  | nil => cases found
  | cons first rest ih =>
      rw [framed_cons]
      cases k with
      | zero =>
          cases found
          refine ⟨[], rest.flatMap fun cell => cell ++ ['|'], rfl, rfl, ?_⟩
          cases rest <;> simp [barPlaces]
      | succ k =>
          obtain ⟨front, back, split, here, next⟩ := ih found (start + 1 + first.length)
          refine ⟨'|' :: (first ++ front), back, by simp [split], ?_, ?_⟩
          · rw [List.map_cons, barPlaces, List.getElem?_cons_succ, here]
            simp only [List.length_cons, List.length_append, Option.some.injEq]
            omega
          · rw [List.map_cons, barPlaces, List.getElem?_cons_succ, next]
            simp only [List.length_cons, List.length_append, Option.some.injEq]
            omega

end Framed

/-! ## Cells -/

def spaced (title : String) : List Char :=
  ' ' :: (title.toList ++ [' '])

def mark (value : Bool) : Char :=
  if value then 'T' else 'F'

/-- The cell under a text of the given width: a letter between blanks. -/
def marked (width : Nat) (value : Bool) : List Char :=
  List.replicate (width / 2 + 1) ' ' ++ mark value :: List.replicate ((width + 1) / 2) ' '

theorem toList_letter (value : Bool) : (letter value).toList = [mark value] := by
  cases value <;> rfl

theorem toList_centred (width : Nat) (value : Bool) :
    (centred width value).toList = marked width value := by
  have half : (((width : Int) + 1) / 2).toNat = (width + 1) / 2 := by omega
  have left : (((width : Int) + 1) / 2 + if (width : Int) % 2 = 0 then 1 else 0).toNat =
      width / 2 + 1 := by
    split <;> omega
  simp only [centred, spaces, String.toList_append, String.toList_ofList, toList_letter, left, half,
    marked]
  simp

theorem length_spaced (title : String) : (spaced title).length = title.length + 2 := by
  simp [spaced, String.length_toList]

theorem length_marked (width : Nat) (value : Bool) : (marked width value).length = width + 2 := by
  simp only [marked, List.length_append, List.length_cons, List.length_replicate]
  omega

theorem noBar_marked (width : Nat) (value : Bool) : '|' ∉ marked width value := by
  cases value <;> simp [marked, mark]

theorem getElem?_marked_middle (width : Nat) (value : Bool) :
    (marked width value)[width / 2 + 1]? = some (mark value) := by
  simp [marked]

theorem getElem?_marked_beside {width i : Nat} (value : Bool) (inside : i < width + 2)
    (beside : i ≠ width / 2 + 1) : (marked width value)[i]? = some ' ' := by
  rw [marked, List.getElem?_append, List.length_replicate]
  split
  · rename_i before
    simp [before]
  · obtain ⟨j, behind⟩ : ∃ j, i - (width / 2 + 1) = j + 1 := ⟨i - (width / 2 + 1) - 1, by omega⟩
    have low : j < (width + 1) / 2 := by omega
    rw [behind, List.getElem?_cons_succ, List.getElem?_replicate, if_pos low]

/-! ## The header and the rows are framed -/

theorem toList_intercalate_append (separator : String) {texts : List String} (some : texts ≠ []) :
    (String.intercalate separator texts ++ separator).toList =
      texts.flatMap fun text => text.toList ++ separator.toList := by
  induction texts with
  | nil => exact absurd rfl some
  | cons text rest ih =>
      cases rest with
      | nil => simp
      | cons next rest =>
          have later := ih (List.cons_ne_nil _ _)
          rw [String.intercalate_cons_cons, String.append_assoc, String.append_assoc,
            String.toList_append, String.toList_append, later]
          simp

theorem toList_cells {texts : List String} (some : texts ≠ []) :
    (cells texts).toList = texts.flatMap fun text => spaced text ++ ['|'] := by
  have mapped : texts.map (" " ++ ·) ≠ [] := by simpa using some
  rw [cells, toList_intercalate_append " |" mapped, List.flatMap_map]
  simp [spaced]

theorem toList_header {atoms columns : List String} (some : atoms ≠ []) :
    (header atoms columns).toList = framed ((atoms ++ columns).map spaced) := by
  cases columns with
  | nil => simp [header, toList_cells some, framed, List.flatMap_map]
  | cons column rest =>
      simp [header, toList_cells some, toList_cells (List.cons_ne_nil column rest), framed,
        List.flatMap_map]

theorem spaced_letter (value : Bool) : spaced (letter value) = marked 1 value := by
  cases value <;> rfl

theorem toList_centred_columns (widths : List Nat) (values : List Bool) :
    (List.zipWith centred (widths.map fun width : Nat => (width : Int)) values).map String.toList =
      List.zipWith marked widths values := by
  rw [List.zipWith_map_left, List.map_zipWith]
  simp only [toList_centred]

theorem line_eq {atoms : List String} (some : atoms ≠ []) {row : Row}
    (covered : row.assignment.Covers atoms) {widths : List Nat}
    (full : row.values.length = widths.length) :
    line atoms (!widths.isEmpty) row (widths.map fun width : Nat => (width : Int)) =
      .ok (String.ofList (framed (atoms.map (fun name => marked 1 (row.assignment.truth name)) ++
        List.zipWith marked widths row.values))) := by
  have values : atoms.mapM (valueIn row) = .ok (atoms.map row.assignment.truth) := by
    refine mapM_eq_ok_map fun name member => ?_
    rw [valueIn, covered.get?_eq member]
  have letters : (atoms.map row.assignment.truth).map letter ≠ [] := by simpa using some
  have front : ("|" ++ cells ((atoms.map row.assignment.truth).map letter)).toList =
      '|' :: atoms.flatMap fun name => marked 1 (row.assignment.truth name) ++ ['|'] := by
    rw [String.toList_append, toList_cells letters]
    simp [List.flatMap_map, spaced_letter]
  rw [line, values]
  cases widths with
  | nil =>
      rw [List.length_nil, List.length_eq_zero_iff] at full
      refine congrArg Except.ok (String.toList_inj.mp ?_)
      rw [front, full]
      simp [framed, List.flatMap_map]
  | cons width rest =>
      obtain ⟨value, later, valuesEq⟩ := List.exists_cons_of_length_eq_add_one full
      have columns := toList_centred_columns (width :: rest) row.values
      have nonempty : List.zipWith centred ((width :: rest).map fun width : Nat => (width : Int))
          row.values ≠ [] := by simp [valuesEq]
      refine congrArg Except.ok (String.toList_inj.mp ?_)
      rw [String.append_assoc, String.toList_append, front,
        toList_intercalate_append "|" nonempty, ← columns, framed, List.flatMap_append,
        List.flatMap_map, List.flatMap_map]
      exact String.toList_ofList.symm

end Grid

/-! ## The grid of a table -/

namespace Table

def titles (t : Table) : List String :=
  t.atoms ++ t.columns.map (·.rendering true)

def valuesIn (t : Table) (row : Row) : List Bool :=
  t.atoms.map row.assignment.truth ++ row.values

def headLine (t : Table) : List Char :=
  Grid.framed (t.titles.map Grid.spaced)

def rowLine (t : Table) (row : Row) : List Char :=
  Grid.framed (List.zipWith (fun title value => Grid.marked title.length value) t.titles
    (t.valuesIn row))

/-- A letter is one character wide, so its cell is like that of a column. -/
theorem rowLine_eq {t : Table} (letters : ∀ name ∈ t.atoms, name.length = 1) (row : Row) :
    t.rowLine row = Grid.framed
      (t.atoms.map (fun name => Grid.marked 1 (row.assignment.truth name)) ++
        List.zipWith Grid.marked ((t.columns.map (·.rendering true)).map String.length)
          row.values) := by
  have sameLength : t.atoms.length = (t.atoms.map row.assignment.truth).length :=
    (List.length_map _).symm
  rw [rowLine, titles, valuesIn, List.zipWith_append sameLength, List.zipWith_map_right,
    List.zipWith_self]
  simp only [List.zipWith_map_left]
  congr 2
  refine List.map_congr_left fun name member => ?_
  rw [letters name member]

namespace Faithful

variable {t : Table} {frames : Nat} (faithful : t.Faithful frames)

include faithful

theorem atoms_ne_nil : t.atoms ≠ [] := by
  obtain ⟨name, rest, leaves⟩ := List.exists_cons_of_ne_nil (leaves_ne_nil faithful.walkable.1)
  have first : name ∈ t.formula.leaves := by simp [leaves]
  exact List.ne_nil_of_mem (faithful.leaves_subset first)

theorem length_values {row : Row} (member : row ∈ t.rows) :
    row.values.length = t.columns.length := by
  obtain ⟨r, found⟩ := List.mem_iff_getElem?.mp member
  rw [(faithful.row_at found).2.2, List.length_map]

theorem column_text {column : Formula} (member : column ∈ t.columns) :
    column.text = .ok (column.rendering true) := by
  rw [faithful.columns] at member
  have walkable := walkable_of_mem_parts faithful.walkable member
  exact text_eq_rendering column walkable.1 (Nat.le_trans walkable.2 (evaluationLevels_le _))

theorem columnTexts_eq : Grid.columnTexts t.columns = .ok (t.columns.map (·.rendering true)) := by
  refine mapM_eq_ok_map fun column member => ?_
  rw [faithful.column_text member]
  rfl

theorem lines_eq (letters : ∀ name ∈ t.atoms, name.length = 1) :
    Grid.lines t = .ok (String.ofList t.headLine ::
      String.ofList (List.replicate t.headLine.length '-') ::
        t.rows.map fun row => String.ofList (t.rowLine row)) := by
  have head : Grid.header t.atoms (t.columns.map (·.rendering true)) =
      String.ofList t.headLine := by
    refine String.toList_inj.mp ?_
    rw [Grid.toList_header faithful.atoms_ne_nil, String.toList_ofList]
    rfl
  have body : t.rows.mapM (fun row => Grid.line t.atoms (!t.columns.isEmpty) row
      ((t.columns.map (·.rendering true)).map fun text => (text.length : Int))) =
        .ok (t.rows.map fun row => String.ofList (t.rowLine row)) := by
    refine mapM_eq_ok_map fun row member => ?_
    have full : row.values.length =
        ((t.columns.map (·.rendering true)).map String.length).length := by
      rw [List.length_map, List.length_map]
      exact faithful.length_values member
    have printed := Grid.line_eq faithful.atoms_ne_nil (faithful.row_covers member) full
    rw [List.isEmpty_map, List.isEmpty_map, List.map_map] at printed
    rw [rowLine_eq letters]
    exact printed
  refine bind_eq_ok_iff.mpr ⟨_, faithful.columnTexts_eq, bind_eq_ok_iff.mpr ⟨_, body, ?_⟩⟩
  rw [head, String.length_ofList]
  rfl

end Faithful

end Table

end Propositional
