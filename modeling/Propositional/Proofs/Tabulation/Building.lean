import Propositional.Journal
import Propositional.Proofs.Rendering
import Propositional.Proofs.Tabulation
import Propositional.Proofs.Walks.Faults

/-!
# Tables of any analysis

An analysis may be one that no text has: its columns need not be parts of its formula, and its atoms
may be missing from the list of names, be more than are needed or be repeated. `ofAnalysis_outcome`
tells which of them have a table, and the error of the others. The rows differ in the values of the
names only, and a value never decides whether an evaluation goes through, so a column fails in all
rows or in none, always at the same node (`evaluate_of_mem_rows`). Before the rows, the number of
them has to be written, which fails from 14285 names on (`ofAnalysis_of_many_names`).
-/

set_option autoImplicit false

namespace Propositional

namespace Formula

/-- The error that an evaluation makes at a node, if it makes one there, when the names have values
and no other atom has one. -/
def flaw? (names : List String) : Formula → Option EvalError
  | atom name => if name ∈ names then none else some (.unassigned name)
  | negation _ => none
  | binary _ _ _ => none
  | unspecified _ _ => some (.walk .undefined)
  | hole => some (.walk .undefined)

/-- The error at the first node that has one, from the root on and left before right. -/
def firstFlaw? (names : List String) (f : Formula) : Option EvalError :=
  f.nodes.findSome? (flaw? names)

/-- The formula is concrete and over the names. -/
def Listed (names : List String) (f : Formula) : Prop :=
  f.Concrete ∧ f.leaves ⊆ names

variable {f : Formula} {names : List String} {σ : Assignment}

theorem holeFree_iff : f.HoleFree ↔ hole ∉ f.nodes := by
  induction f with
  | atom name => simp [HoleFree, nodes]
  | negation operand ih => simp [HoleFree, nodes, ih]
  | binary c left right leftIh rightIh => simp [HoleFree, nodes, leftIh, rightIh]
  | unspecified left right leftIh rightIh => simp [HoleFree, nodes, leftIh, rightIh]
  | hole => simp [HoleFree, nodes]

/-! ## Faults of columns -/

theorem fault?_of_mem_rows (member : σ ∈ Assignment.rows names) : fault? σ = flaw? names := by
  funext node
  cases node with
  | atom name =>
      by_cases listed : name ∈ names <;>
        simp [fault?, flaw?, Assignment.get?_eq_none_iff_of_mem_rows member, listed]
  | negation operand => rfl
  | binary c left right => rfl
  | unspecified left right => rfl
  | hole => rfl

section Rows

variable {frames : Nat} (low : f.height ≤ evaluationLevels frames)

include low

theorem evaluate_of_mem_rows (member : σ ∈ Assignment.rows names) :
    f.evaluate frames σ = (f.firstFlaw? names).elim (.ok (f.value σ.truth)) .error := by
  rw [evaluate_eq_firstFault low, firstFault?, fault?_of_mem_rows member, firstFlaw?]

theorem firstFlaw?_eq_none_iff : f.firstFlaw? names = none ↔ f.Listed names := by
  obtain ⟨σ, member⟩ := List.exists_mem_of_ne_nil _ (Assignment.rows_ne_nil names)
  have succeeds : (∃ value, f.evaluate frames σ = .ok value) ↔ f.firstFault? σ = none :=
    evaluate_succeeds_iff low
  rw [firstFault?, fault?_of_mem_rows member] at succeeds
  rw [firstFlaw?, ← succeeds, Listed, ← Assignment.covers_iff_of_mem_rows member]
  simp [evaluate, evaluateWithin_eq_ok_iff, Walkable, low]

end Rows

end Formula

open Formula

variable {names : List String} {columns : List Formula} {σ : Assignment} {a : Analysis}
  {frames : Nat}

theorem Row.ofColumns_of_mem_rows
    (low : ∀ column ∈ columns, column.height ≤ evaluationLevels frames)
    (member : σ ∈ Assignment.rows names) :
    Row.ofColumns columns frames σ =
      (columns.findSome? (firstFlaw? names)).elim (.ok (Row.filled columns σ)) .error := by
  rw [Row.ofColumns, mapM_eq_findSome? fun column inside =>
    evaluate_of_mem_rows (low column inside) member]
  cases columns.findSome? (firstFlaw? names) <;> rfl

namespace Table

theorem announceable_iff (atoms : Nat) : Announceable atoms ↔ atoms ≤ 14284 := by
  constructor
  · intro announceable
    by_contra many
    have enough : 14285 ≤ atoms := Nat.lt_of_not_le many
    have digits : Nat.pow 10 digitLimit ≤ Assignment.rowCount 14285 := by decide +kernel
    have rows := Nat.le_trans digits (Assignment.rowCount_mono enough)
    exact absurd (announceable (Nat.le_trans (by decide) enough)) (Nat.not_lt.mpr rows)
  · intro few _
    have digits : Assignment.rowCount 14284 < Nat.pow 10 digitLimit := by decide +kernel
    exact Nat.lt_of_le_of_lt (Assignment.rowCount_mono few) digits

theorem ofAnalysis_of_unwritable (many : 14284 < a.atoms.length) :
    ofAnalysis a frames = .error .unwritable :=
  if_neg (mt (announceable_iff _).mp (Nat.not_le.mpr many))

theorem text_cases (f : Formula) (low : f.height ≤ printLimit) :
    (hole ∉ f.nodes ∧ ∃ text, f.text = .ok text) ∨
      (hole ∈ f.nodes ∧ f.text = .error .undefined) := by
  by_cases free : f.HoleFree
  · exact .inl ⟨holeFree_iff.mp free, _, (textWithin_eq_ok_iff _).mpr ⟨⟨free, low⟩, rfl⟩⟩
  · exact .inr ⟨not_not.mp (mt holeFree_iff.mpr free), textWithin_of_hole low free⟩

section Announceable

variable (announceable : a.atoms.length ≤ 14284)

include announceable

theorem ofAnalysis_eq (low : ∀ column ∈ a.columns, column.height ≤ evaluationLevels (frames + 3)) :
    ofAnalysis a frames = (a.columns.findSome? (firstFlaw? a.atoms)).elim
      (match a.formula.text with
        | .ok _ => .ok (filled a)
        | .error cause => .error (.evaluate (.walk cause))) fun cause => .error (.evaluate cause) := by
  have rows : ((List.range (Assignment.rowCount a.atoms.length)).mapM fun r =>
      Row.ofColumns a.columns (frames + 3) (Assignment.row a.atoms r)) =
        (Assignment.rows a.atoms).mapM (Row.ofColumns a.columns (frames + 3)) := by
    rw [Assignment.rows, List.mapM_map]
    rfl
  rw [ofAnalysis, if_pos ((announceable_iff _).mpr announceable), rows,
    mapM_eq_elim (Assignment.rows_ne_nil a.atoms) fun σ member =>
      Row.ofColumns_of_mem_rows low member]
  cases a.columns.findSome? (firstFlaw? a.atoms) <;> rfl

section Low

variable (printable : a.formula.height ≤ printLimit)
  (low : ∀ column ∈ a.columns, column.height ≤ evaluationLevels (frames + 3))

include low

omit announceable in
theorem findSome?_eq_none_iff_listed :
    a.columns.findSome? (firstFlaw? a.atoms) = none ↔
      ∀ column ∈ a.columns, column.Listed a.atoms := by
  rw [List.findSome?_eq_none_iff]
  exact forall₂_congr fun column inside => firstFlaw?_eq_none_iff (low column inside)

include printable in
theorem ofAnalysis_of_listed (listed : ∀ column ∈ a.columns, column.Listed a.atoms) :
    ofAnalysis a frames =
      if hole ∈ a.formula.nodes then .error (.evaluate (.walk .undefined)) else .ok (filled a) := by
  rw [ofAnalysis_eq announceable low, (findSome?_eq_none_iff_listed low).mpr listed]
  rcases text_cases a.formula printable with ⟨free, text, printed⟩ | ⟨found, refused⟩
  · rw [if_neg free, printed]
    rfl
  · rw [if_pos found, refused]
    rfl

theorem ofAnalysis_of_unlisted {front back : List Formula} {column : Formula}
    (split : a.columns = front ++ column :: back)
    (before : ∀ earlier ∈ front, earlier.Listed a.atoms) (unlisted : ¬ column.Listed a.atoms) :
    ∃ cause, column.nodes.findSome? (flaw? a.atoms) = some cause ∧
      ofAnalysis a frames = .error (.evaluate cause) := by
  have inFront : ∀ earlier ∈ front, earlier.height ≤ evaluationLevels (frames + 3) := by
    intro earlier member
    apply low
    rw [split]
    exact List.mem_append_left _ member
  have here : column.height ≤ evaluationLevels (frames + 3) := by
    apply low
    rw [split]
    exact List.mem_append_right _ (List.mem_cons_self ..)
  have passed : front.findSome? (firstFlaw? a.atoms) = none := by
    rw [List.findSome?_eq_none_iff]
    intro earlier member
    exact (firstFlaw?_eq_none_iff (inFront earlier member)).mpr (before earlier member)
  obtain ⟨cause, found⟩ := Option.ne_none_iff_exists'.mp
    (mt (firstFlaw?_eq_none_iff here).mp unlisted)
  refine ⟨cause, found, ?_⟩
  rw [ofAnalysis_eq announceable low, split, List.findSome?_append, passed,
    List.findSome?_cons, found]
  rfl

include printable in
theorem ofAnalysis_eq_ok_iff (t : Table) :
    ofAnalysis a frames = .ok t ↔
      ((∀ column ∈ a.columns, column.Listed a.atoms) ∧ hole ∉ a.formula.nodes) ∧
        t = filled a := by
  by_cases listed : ∀ column ∈ a.columns, column.Listed a.atoms
  · rw [ofAnalysis_of_listed announceable printable low listed]
    by_cases found : hole ∈ a.formula.nodes
    · simp [found]
    · rw [if_neg found, Except.ok.injEq, and_iff_right ⟨listed, found⟩]
      exact eq_comm
  · have flawed := mt (findSome?_eq_none_iff_listed low).mp listed
    obtain ⟨cause, found⟩ := Option.ne_none_iff_exists'.mp flawed
    rw [ofAnalysis_eq announceable low, found]
    simp [listed]

end Low

end Announceable

theorem result_filled (low : a.formula.height ≤ evaluationLevels (frames + 2)) :
    (∃ results, (filled a).result frames = .ok results) ↔ a.formula.Listed a.atoms := by
  have each : (filled a).result frames =
      (Assignment.rows a.atoms).mapM fun σ => a.formula.evaluate (frames + 2) σ := by
    rw [result, filled, List.mapM_map]
    rfl
  have all : (filled a).result frames = (a.formula.firstFlaw? a.atoms).elim
      (.ok ((Assignment.rows a.atoms).map fun σ => a.formula.value σ.truth)) .error := by
    rw [each]
    apply mapM_eq_elim (Assignment.rows_ne_nil a.atoms)
    intro σ member
    exact evaluate_of_mem_rows low member
  rw [all, ← firstFlaw?_eq_none_iff low]
  cases a.formula.firstFlaw? a.atoms <;> simp

theorem warnings_build (a : Analysis) (frames : Nat) :
    (Account.build a frames).records.filter (fun r => r.weight = Level.warning.weight) =
      Account.announcement a.atoms.length := by
  have noneLater : (Account.buildRecords (ofAnalysis a frames)).filter
      (fun r => r.weight = Level.warning.weight) = [] := by
    cases ofAnalysis a frames <;> rfl
  change (Account.announcement a.atoms.length ++
    Account.buildRecords (ofAnalysis a frames)).filter _ = _
  rw [List.filter_append, noneLater, List.append_nil]
  unfold Account.announcement
  split <;> rfl

/-- With at most 14284 names an analysis has a table exactly if all its columns are listed and its
formula has no hole. Otherwise the first column that is not listed tells the error, the first flaw
of its nodes, whatever the rows are; and if there is none, it is the hole. A table has a row for
every choice of values and in each row a value for every column, and its results exist exactly if
the formula is listed as well. The warning of a large table comes first in any case. With more names
the warning itself cannot be written, and nothing else comes of the analysis. -/
theorem ofAnalysis_outcome (a : Analysis) (frames : Nat) (few : frames ≤ callerLimit)
    (low : ∀ f ∈ a.formula :: a.columns, f.height ≤ 401) :
    (a.atoms.length ≤ 14284 →
      ((∃ t, ofAnalysis a frames = .ok t) ↔
        (∀ column ∈ a.columns, column.Listed a.atoms) ∧ hole ∉ a.formula.nodes) ∧
      (∀ front column back, a.columns = front ++ column :: back →
        (∀ earlier ∈ front, earlier.Listed a.atoms) → ¬ column.Listed a.atoms →
        ∃ cause, column.nodes.findSome? (flaw? a.atoms) = some cause ∧
          ofAnalysis a frames = .error (.evaluate cause)) ∧
      ((∀ column ∈ a.columns, column.Listed a.atoms) → hole ∈ a.formula.nodes →
        ofAnalysis a frames = .error (.evaluate (.walk .undefined))) ∧
      (∀ t, ofAnalysis a frames = .ok t →
        t.toAnalysis = a ∧ t.rows.length = 2 ^ a.atoms.length ∧
        (∀ row ∈ t.rows, row.values.length = a.columns.length) ∧
        ((∃ results, t.result frames = .ok results) ↔ a.formula.Listed a.atoms)) ∧
      (Account.build a frames).outcome = (ofAnalysis a frames).mapError .table ∧
      (Account.build a frames).records.filter (fun r => r.weight = Level.warning.weight) =
        if 10 < a.atoms.length then
          [.ofLevel .warning ("Formula has " ++ toString a.atoms.length ++ " variables, building "
            ++ toString (2 ^ a.atoms.length) ++ " rows")]
        else []) ∧
    (14284 < a.atoms.length →
      (Account.build a frames).outcome = .error (.table .unwritable) ∧
      (Account.build a frames).records = []) := by
  have enterable : ∀ f ∈ a.formula :: a.columns, f.height ≤ evaluationLevels (frames + 3) :=
    fun f member => Nat.le_trans (low f member)
      (le_evaluationLevels (Nat.add_le_add few (by decide)))
  obtain ⟨formulaLow, columnsLow⟩ := List.forall_mem_cons.mp enterable
  have printable := Nat.le_trans formulaLow (evaluationLevels_le _)
  constructor
  · intro announceable
    refine ⟨?_, ?_, ?_, ?_, rfl, ?_⟩
    · simp only [ofAnalysis_eq_ok_iff announceable printable columnsLow, exists_and_left, exists_eq,
        and_true]
    · intro front column back split before unlisted
      exact ofAnalysis_of_unlisted announceable columnsLow split before unlisted
    · intro listed found
      rw [ofAnalysis_of_listed announceable printable columnsLow listed, if_pos found]
    · intro t built
      obtain rfl := ofAnalysis_eq_ok built
      refine ⟨rfl, ?_, ?_, ?_⟩
      · rw [filled, List.length_map, Assignment.rows, List.length_map, List.length_range,
          Assignment.rowCount_eq]
      · intro row member
        obtain ⟨σ, _, rfl⟩ := List.mem_map.mp member
        exact List.length_map ..
      · exact result_filled (Nat.le_trans formulaLow (evaluationLevels_anti (Nat.le_succ _)))
    · have writable := (announceable_iff _).mpr announceable
      rw [warnings_build]
      exact if_congr (and_iff_left writable) rfl rfl
  · intro many
    have refused : ofAnalysis a frames = .error .unwritable := ofAnalysis_of_unwritable many
    have unannounced : ¬ Announceable a.atoms.length :=
      mt (announceable_iff _).mp (Nat.not_le.mpr many)
    rw [Account.build, refused]
    exact ⟨rfl, by simp [Account.announcement, Account.buildRecords, unannounced]⟩

/-- The second column has an atom that is not listed, and it comes before the one without a
connective. With the first column alone there is a table, but no results. -/
theorem ofAnalysis_outcome_unlisted :
    let either := binary .disjunction (atom "A") (atom "B")
    let missing := negation (binary .conjunction (atom "B") (atom "D"))
    let blank := unspecified (atom "A") (atom "B")
    let flawed : Analysis := ⟨atom "C", ["A", "B", "A"], [either, missing, blank]⟩
    let sound : Analysis := ⟨atom "C", ["A", "B", "A"], [either]⟩
    1 ≤ callerLimit ∧ (∀ f ∈ flawed.formula :: flawed.columns, f.height ≤ 401) ∧
      ofAnalysis flawed 1 = .error (.evaluate (.unassigned "D")) ∧
      (∀ f ∈ sound.formula :: sound.columns, f.height ≤ 401) ∧
      ∃ t, ofAnalysis sound 1 = .ok t ∧ t.rows.length = 8 ∧
        ¬ ∃ results, t.result 1 = .ok results := by
  intro either missing blank flawed sound
  have few : 1 ≤ callerLimit := by decide
  have flawedLow : ∀ f ∈ flawed.formula :: flawed.columns, f.height ≤ 401 := by decide
  have soundLow : ∀ f ∈ sound.formula :: sound.columns, f.height ≤ 401 := by decide
  have listed : ∀ column ∈ [either], column.Listed ["A", "B", "A"] := by
    intro column member
    obtain rfl := List.mem_singleton.mp member
    exact ⟨⟨trivial, trivial⟩, by decide⟩
  have unlisted : ¬ missing.Listed ["A", "B", "A"] := by
    intro inside
    have named : "D" ∈ missing.leaves := by decide
    exact absurd (inside.2 named) (by decide)
  obtain ⟨_, fails, _⟩ := (ofAnalysis_outcome flawed 1 few flawedLow).1 (by decide)
  obtain ⟨succeeds, _, _, built, _⟩ := (ofAnalysis_outcome sound 1 few soundLow).1 (by decide)
  obtain ⟨cause, found, failed⟩ := fails [either] missing [blank] rfl listed unlisted
  have first : missing.nodes.findSome? (flaw? ["A", "B", "A"]) = some (.unassigned "D") := by decide
  cases found.symm.trans first
  obtain ⟨t, tabulated⟩ := succeeds.mpr ⟨listed, by decide⟩
  obtain ⟨_, rows, _, results⟩ := built t tabulated
  refine ⟨few, flawedLow, failed, soundLow, t, tabulated, rows, ?_⟩
  rw [results]
  intro inside
  have named : "C" ∈ sound.formula.leaves := by decide
  exact absurd (inside.2 named) (by decide)

/-- With a name repeated 14285 times, a column whose atom is not listed is not the error, and no
warning is written. -/
theorem ofAnalysis_of_many_names :
    let a : Analysis := ⟨atom "A", List.replicate 14285 "A", [atom "B"]⟩
    (∀ f ∈ a.formula :: a.columns, f.height ≤ 401) ∧ ¬ (atom "B").Listed a.atoms ∧
      ofAnalysis a 1 = .error .unwritable ∧ 10 < a.atoms.length ∧
      (Account.build a 1).records = [] := by
  intro a
  have length : a.atoms.length = 14285 := List.length_replicate
  have many : 14284 < a.atoms.length := by
    rw [length]
    decide
  have unannounced : ¬ Announceable a.atoms.length :=
    mt (announceable_iff _).mp (Nat.not_le.mpr many)
  have refused : ofAnalysis a 1 = .error .unwritable := ofAnalysis_of_unwritable many
  refine ⟨by decide, fun listed => ?_, refused, Nat.lt_trans (by decide) many, ?_⟩
  · have named := List.eq_of_mem_replicate (listed.2 (List.mem_singleton_self "B"))
    exact absurd named (by decide)
  · rw [Account.build, refused]
    simp [Account.announcement, Account.buildRecords, unannounced]

end Table

end Propositional
