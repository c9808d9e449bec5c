import Propositional.Proofs.Renaming
import Propositional.Proofs.Totality

/-!
# Tables over other letters

`rows_mirror`: two faithful tables whose formulas differ in their letters alone have the same rows
up to the letters. From it `ofText_permuted` concludes that a permutation of the letters of a text
changes neither whether the text is accepted nor any value in its table.
-/

set_option autoImplicit false

namespace Propositional

open Formula

variable {π : Equiv.Perm Letter}

namespace Row

/-- The row `other` gives the images what `row` gives the names, and it has the same values. -/
def Mirrors (image : String → String) (row other : Row) : Prop :=
  Assignment.Mirrors image row.assignment other.assignment ∧ other.values = row.values

end Row

theorem map_eq_map_of_forall₂ {α β γ : Type} {f : α → γ} {g : β → γ} {items : List α}
    {others : List β} (pairs : List.Forall₂ (fun item other => f item = g other) items others) :
    items.map f = others.map g := by
  rwa [← List.forall₂_eq_eq_eq, List.forall₂_map_left_iff, List.forall₂_map_right_iff]

namespace Table

section Images

variable {t u : Table} {frames : Nat} (faithful : t.Faithful frames) (others : u.Faithful frames)
  (renamed : u.formula = t.formula.rename (relabel π))

include faithful others renamed

theorem atoms_image : u.atoms = t.atoms.map (relabel π) := by
  rw [others.atoms, faithful.atoms, renamed, leaves_rename, eraseDups_map relabel_injective]

theorem columns_image : u.columns = t.columns.map (Formula.rename (relabel π)) := by
  rw [others.columns, faithful.columns, renamed, parts_rename]

theorem rows_mirror : List.Forall₂ (Row.Mirrors (relabel π)) t.rows u.rows := by
  have atoms := atoms_image faithful others renamed
  have columns := columns_image faithful others renamed
  rw [List.forall₂_iff_get]
  constructor
  · rw [faithful.length_rows, others.length_rows, atoms, List.length_map]
  · intro r inside imageInside
    obtain ⟨_, assigned, values⟩ := faithful.row_at (List.getElem?_eq_getElem inside)
    obtain ⟨_, imageAssigned, imageValues⟩ := others.row_at (List.getElem?_eq_getElem imageInside)
    have mirrors : Assignment.Mirrors (relabel π) t.rows[r].assignment u.rows[r].assignment := by
      rw [assigned, imageAssigned, atoms]
      exact Assignment.mirrors_row relabel_injective t.atoms r
    refine ⟨mirrors, ?_⟩
    change u.rows[r].values = t.rows[r].values
    rw [imageValues, values, columns, List.map_map]
    exact List.map_congr_left fun column _ => value_rename mirrors

theorem result_image : u.result frames = t.result frames := by
  rw [others.result_eq, faithful.result_eq, renamed]
  refine congrArg Except.ok (map_eq_map_of_forall₂ ?_).symm
  exact (rows_mirror faithful others renamed).imp fun row other pair => (value_rename pair.1).symm

theorem titles_image : u.titles = t.titles.map (relabel π) := by
  rw [titles, titles, atoms_image faithful others renamed, columns_image faithful others renamed]
  simp only [List.map_append, List.map_map, Function.comp_def, rendering_rename]

theorem valuesIn_image {row other : Row} (pair : row.Mirrors (relabel π) other) :
    u.valuesIn other = t.valuesIn row := by
  have truths : (fun name => other.assignment.truth (relabel π name)) = row.assignment.truth := by
    funext name
    exact congrArg (·.getD false) (pair.1 name)
  rw [valuesIn, valuesIn, atoms_image faithful others renamed, pair.2, List.map_map,
    Function.comp_def, truths]

theorem rowLine_image {row other : Row} (pair : row.Mirrors (relabel π) other) :
    u.rowLine other = t.rowLine row := by
  rw [rowLine, rowLine, titles_image faithful others renamed,
    valuesIn_image faithful others renamed pair, List.zipWith_map_left]
  simp only [length_relabel]

theorem headLine_image : u.headLine = t.headLine.map (imageChar π) := by
  have bar : imageChar π '|' = '|' := imageChar_of_not_namesAtom (by decide)
  have blank : imageChar π ' ' = ' ' := imageChar_of_not_namesAtom (by decide)
  have cells : ∀ title, Grid.spaced (relabel π title) = (Grid.spaced title).map (imageChar π) := by
    intro title
    simp only [Grid.spaced, toList_relabel, List.map_cons, List.map_append, List.map_nil, blank]
  simp only [headLine, Grid.framed, titles_image faithful others renamed, List.map_cons,
    List.map_flatMap, List.map_append, List.map_nil, List.flatMap_map, bar, cells]

theorem lines_image (letters : ∀ name ∈ t.atoms, name.length = 1) :
    ∃ head rule body, Grid.lines t = .ok (head :: rule :: body) ∧
      Grid.lines u = .ok (relabel π head :: rule :: body) := by
  have imageLetters : ∀ name ∈ u.atoms, name.length = 1 := by
    rw [atoms_image faithful others renamed, List.forall_mem_map]
    intro name member
    rw [length_relabel, letters name member]
  have head : String.ofList u.headLine = relabel π (String.ofList t.headLine) := by
    refine String.toList_inj.mp ?_
    rw [toList_relabel, String.toList_ofList, String.toList_ofList,
      headLine_image faithful others renamed]
  have body : (u.rows.map fun row => String.ofList (u.rowLine row)) =
      t.rows.map fun row => String.ofList (t.rowLine row) := by
    refine (map_eq_map_of_forall₂ ?_).symm
    refine (rows_mirror faithful others renamed).imp fun row other pair => ?_
    rw [rowLine_image faithful others renamed pair]
  refine ⟨_, _, _, faithful.lines_eq letters, ?_⟩
  rw [others.lines_eq imageLetters, head, body, headLine_image faithful others renamed,
    List.length_map]

end Images

theorem exists_image {source : String} {frames : Nat} {t : Table}
    (tabulated : Table.ofText source frames = .ok t) :
    ∃ u, Table.ofText (relabel π source) frames = .ok u := by
  have read := (faithful_of_ofText tabulated).1
  obtain ⟨low, columnsLow⟩ := (ofText_succeeds_iff read frames).mp ⟨t, tabulated⟩
  refine (ofText_succeeds_iff (Formula.ofText_relabel read) frames).mpr ⟨?_, ?_⟩
  · rw [height_rename]
    exact low
  · rw [parts_rename, List.forall_mem_map]
    intro column member
    rw [height_rename]
    exact columnsLow column member

/-- Names are labels. However the letters other than `V` are permuted, the image of a text has a
table exactly when the text has one. In the table of the image stand the images of the names, in
the same order, and of the formula and its columns; all values in its rows, its results, and the
lines of its grid below the header are the same. -/
theorem ofText_permuted (π : Equiv.Perm Letter) (source : String) (frames : Nat) :
    ((∃ u, Table.ofText (relabel π source) frames = .ok u) ↔
      ∃ t, Table.ofText source frames = .ok t) ∧
    ∀ t u, Table.ofText source frames = .ok t → Table.ofText (relabel π source) frames = .ok u →
      u.atoms = t.atoms.map (relabel π) ∧
      u.formula = t.formula.rename (relabel π) ∧
      u.columns = t.columns.map (Formula.rename (relabel π)) ∧
      List.Forall₂ (fun row other => row.assignment.Covers t.atoms ∧
        u.atoms.map other.assignment.get? = t.atoms.map row.assignment.get? ∧
        other.values = row.values) t.rows u.rows ∧
      (∃ results, t.result frames = .ok results ∧ u.result frames = .ok results) ∧
      ∃ head rule body, Grid.lines t = .ok (head :: rule :: body) ∧
        Grid.lines u = .ok (relabel π head :: rule :: body) := by
  refine ⟨⟨?_, ?_⟩, ?_⟩
  · rintro ⟨u, tabulated⟩
    have back := @exists_image π⁻¹ _ _ u tabulated
    rwa [relabel_inv] at back
  · rintro ⟨t, tabulated⟩
    exact exists_image tabulated
  · intro t u tabulated imageTabulated
    obtain ⟨read, faithful⟩ := faithful_of_ofText tabulated
    obtain ⟨imageRead, others⟩ := faithful_of_ofText imageTabulated
    have renamed : u.formula = t.formula.rename (relabel π) :=
      Except.ok.inj (imageRead.symm.trans (Formula.ofText_relabel read))
    have atoms := atoms_image faithful others renamed
    have computed := faithful.result_eq
    have result := result_image faithful others renamed
    refine ⟨atoms, renamed, columns_image faithful others renamed, ?_,
      ⟨_, computed, result.trans computed⟩,
      lines_image faithful others renamed (length_of_mem_atoms tabulated)⟩
    have covered : ∀ row ∈ t.rows, row.assignment.Covers t.atoms :=
      fun row member => faithful.row_covers member
    have pairs := rows_mirror faithful others renamed
    refine ((List.forall₂_and_left _ _).mpr ⟨covered, pairs⟩).imp ?_
    rintro row other ⟨given, mirrors, values⟩
    refine ⟨given, ?_, values⟩
    rw [atoms, List.map_map]
    exact List.map_congr_left fun name _ => mirrors name

/-- The names swap places; the operator `V` keeps its own. -/
example : relabel (Equiv.swap ⟨'A', by decide⟩ ⟨'P', by decide⟩) "(A V P)^-A" = "(P V A)^-P" := by
  decide +kernel

end Table

end Propositional
