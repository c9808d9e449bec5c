import Propositional.Proofs.Totality
import Propositional.Session

/-!
# Showing a table prints all of it or nothing

`showTable_all_or_nothing` gives the three outcomes of showing a table: it is printed, its text is
refused, or an evaluation goes too deep. By `quiet_grid` the account of a grid holds no record as
heavy as an error, so the reason of a refusal is the only such record.
-/

set_option autoImplicit false

namespace Propositional

/-! ## Quiet accounts -/

namespace Record

/-- Every record is of a level, and of one below an error. -/
def Quiet (records : List Record) : Prop :=
  ∀ r ∈ records, ∃ level message, level ≠ .error ∧ r = .ofLevel level message

theorem quiet_nil : Quiet [] :=
  nofun

theorem quiet_singleton {level : Level} {message : String} (below : level ≠ .error) :
    Quiet [.ofLevel level message] := by
  intro other member
  exact ⟨level, message, below, List.mem_singleton.mp member⟩

/-- Every record is one of inner detail. -/
def Inner (records : List Record) : Prop :=
  ∀ r ∈ records, ∃ message, r = debug message

theorem inner_nil : Inner [] :=
  nofun

theorem inner_singleton (message : String) : Inner [debug message] :=
  fun _ member => ⟨message, List.mem_singleton.mp member⟩

theorem Inner.quiet {records : List Record} (inner : Inner records) : Quiet records := by
  intro r member
  obtain ⟨message, rfl⟩ := inner r member
  exact ⟨.debug, message, nofun, rfl⟩

theorem quiet_append {first second : List Record} :
    Quiet (first ++ second) ↔ Quiet first ∧ Quiet second :=
  List.forall_mem_append

theorem Quiet.errors_eq_nil {records : List Record} (quiet : Quiet records) :
    records.filter (reaches .error) = [] := by
  rw [List.filter_eq_nil_iff]
  intro r member
  obtain ⟨level, message, below, rfl⟩ := quiet r member
  cases level with
  | error => exact absurd rfl below
  | _ => exact Bool.false_ne_true

theorem errors_refused (source reason : String) :
    (refused source reason).filter (reaches .error) = [.ofLevel .error reason] :=
  rfl

end Record

namespace Account

open Record

variable {α β : Type}

/-- What holds of all records of the first activity and of all records of the second one holds of
the records of both. -/
theorem forall_andThen {P : Record → Prop} {first : Account α} {next : α → Account β}
    (here : ∀ r ∈ first.records, P r) (later : ∀ value, ∀ r ∈ (next value).records, P r) :
    ∀ r ∈ (first.andThen next).records, P r := by
  unfold andThen
  split
  · exact List.forall_mem_append.mpr ⟨here, later _⟩
  · exact here

theorem inner_scanRecords (outcome : Except LexError (List Token)) :
    Inner (scanRecords outcome) := by
  cases outcome with
  | ok tokens => exact inner_singleton _
  | error cause => exact inner_singleton _

theorem inner_parseRecords (outcome : Except ParseError Formula) :
    Inner (parseRecords outcome) := by
  unfold parseRecords
  split
  · exact inner_singleton _
  · exact inner_nil
  · exact inner_singleton _
  · exact inner_singleton _

theorem inner_analysisRecords (outcome : Except WalkError Analysis) :
    Inner (analysisRecords outcome) := by
  cases outcome with
  | ok analysis => exact inner_singleton _
  | error cause => exact inner_nil

theorem inner_buildRecords (outcome : Except TableError Table) : Inner (buildRecords outcome) := by
  cases outcome with
  | ok table => exact inner_singleton _
  | error cause => exact inner_nil

theorem inner_formula (source : String) : Inner (formula source).records :=
  forall_andThen (inner_scanRecords _) fun _ => inner_parseRecords _

variable (source : String) (frames : Nat)

theorem inner_analysis : Inner (analysis source frames).records :=
  List.forall_mem_cons.mpr
    ⟨⟨_, rfl⟩, forall_andThen (inner_formula source) fun _ => inner_analysisRecords _⟩

theorem quiet_announcement (atoms : Nat) : Quiet (announcement atoms) := by
  unfold announcement
  split
  · exact quiet_singleton nofun
  · exact quiet_nil

theorem quiet_table : Quiet (table source frames).records :=
  forall_andThen (inner_analysis source _).quiet fun a =>
    quiet_append.mpr ⟨quiet_announcement a.atoms.length, (inner_buildRecords _).quiet⟩

theorem quiet_grid : Quiet (grid source frames).records :=
  forall_andThen (quiet_table source frames) fun _ => quiet_nil

end Account

/-! ## Events -/

namespace Event

def lines (events : List Event) : List String :=
  events.filterMap line?

theorem lines_append (first second : List Event) :
    lines (first ++ second) = lines first ++ lines second :=
  List.filterMap_append

theorem lines_map_line (texts : List String) : lines (texts.map .line) = texts := by
  simp [lines, line?, Function.comp_def, List.filterMap_map]

theorem lines_map_record (written : List Record) : lines (written.map .record) = [] := by
  simp [lines, line?, Function.comp_def, List.filterMap_map]

theorem records_map_line (texts : List String) : records (texts.map .line) = [] := by
  simp [records, record?, Function.comp_def, List.filterMap_map]

theorem records_map_record (written : List Record) : records (written.map .record) = written := by
  simp [records, record?, Function.comp_def, List.filterMap_map]

end Event

/-! ## Showing a table -/

def FormulaError.outOfFrames : FormulaError :=
  .table (.evaluate (.walk .tooDeep))

theorem FormulaError.not_isRefusal_outOfFrames : ¬ outOfFrames.IsRefusal :=
  id

section Outcomes

variable {source : String} {frames : Nat} {t : Table} {cause : FormulaError}

theorem Grid.ofText_of_ok {lines : List String} (tabulated : Table.ofText source frames = .ok t)
    (printed : Grid.lines t = .ok lines) : Grid.ofText source frames = .ok lines :=
  bind_eq_ok_iff.mpr ⟨t, tabulated, mapError_eq_ok_iff.mpr printed⟩

theorem Grid.ofText_of_error (failed : Table.ofText source frames = .error cause) :
    Grid.ofText source frames = .error cause := by
  rw [Grid.ofText, failed]
  rfl

theorem Table.exists_lines (tabulated : Table.ofText source frames = .ok t) :
    ∃ lines, Grid.lines t = .ok lines :=
  ⟨_, (faithful_of_ofText tabulated).2.lines_eq (length_of_mem_atoms tabulated)⟩

theorem Table.isRefusal_or_outOfFrames (failed : Table.ofText source frames = .error cause) :
    cause.IsRefusal ∨ cause = .outOfFrames := by
  rcases ofText_error failed with ⟨e, rfl⟩ | ⟨e, _, rfl⟩ | ⟨f, _, _, _, rfl⟩
  · exact .inl trivial
  · exact .inl trivial
  · exact .inr rfl

theorem Table.table_eq_outOfFrames {e : TableError}
    (failed : Table.ofText source frames = .error (.table e)) :
    FormulaError.table e = .outOfFrames := by
  rcases ofText_error failed with ⟨_, lex⟩ | ⟨_, _, parse⟩ | ⟨_, _, _, _, same⟩
  · cases lex
  · cases parse
  · exact same

theorem Table.announceable_atoms (tabulated : Table.ofText source frames = .ok t) :
    Announceable t.atoms.length := by
  obtain ⟨read, faithful⟩ := faithful_of_ofText tabulated
  rw [faithful.atoms]
  exact (announceable_iff _).mpr (announceable_of_ofText read)

end Outcomes

namespace Session

variable {s : Session} {frames : Nat} {source : String} {cause : FormulaError}

theorem showTable_of_ok {lines : List String}
    (printed : Grid.ofText source (frames + 1) = .ok lines) :
    s.showTable frames source = ⟨.ok true, s,
      (Account.grid source (frames + 1)).records.map .record ++ lines.map .line⟩ := by
  simp only [showTable, Account.outcome_grid, printed]

theorem showTable_of_refusal (refused : Grid.ofText source (frames + 1) = .error cause)
    (refusal : cause.IsRefusal) :
    s.showTable frames source = ⟨.ok false, { s with failures := s.failures + 1 },
      ((Account.grid source (frames + 1)).records ++
        Record.refused source cause.message).map .record⟩ := by
  simp only [showTable, Account.outcome_grid, refused, if_pos refusal]

theorem showTable_of_escape (failed : Grid.ofText source (frames + 1) = .error cause)
    (uncaught : ¬ cause.IsRefusal) :
    s.showTable frames source =
      ⟨.error cause, s, (Account.grid source (frames + 1)).records.map .record⟩ := by
  simp only [showTable, Account.outcome_grid, failed, if_neg uncaught]

theorem refusal_only (refused : Table.ofText source (frames + 1) = .error cause)
    (refusal : cause.IsRefusal) :
    (s.showTable frames source).result = .ok false ∧
      (s.showTable frames source).session = { s with failures := s.failures + 1 } ∧
      Event.lines (s.showTable frames source).events = [] ∧
      (Event.records (s.showTable frames source).events).filter (Record.reaches .error) =
        [.ofLevel .error cause.message] := by
  rw [showTable_of_refusal (Grid.ofText_of_error refused) refusal]
  refine ⟨rfl, rfl, Event.lines_map_record _, ?_⟩
  rw [Event.records_map_record, List.filter_append, (Account.quiet_grid source _).errors_eq_nil,
    List.nil_append, Record.errors_refused]

/-- A text that has a table is printed with all the lines of its grid, and nothing else changes and
no error is recorded. A text that is refused by the scan or by the reader prints nothing; one more
failure is counted, and its message is the one error on record. Otherwise an evaluation goes too
deep, which takes more than 401 levels unless the caller holds many frames: its error leaves the
session as it was, with nothing printed and no error on record. -/
theorem showTable_all_or_nothing (s : Session) (frames : Nat) (source : String) :
    (∃ t lines, Table.ofText source (frames + 1) = .ok t ∧ Grid.lines t = .ok lines ∧
      (s.showTable frames source).result = .ok true ∧ (s.showTable frames source).session = s ∧
      Event.lines (s.showTable frames source).events = lines ∧
      (Event.records (s.showTable frames source).events).filter (Record.reaches .error) = []) ∨
    (∃ cause, Table.ofText source (frames + 1) = .error cause ∧
      ((∃ e, cause = .lex e) ∨ ∃ e, e ≠ .gap ∧ cause = .parse e) ∧
      (s.showTable frames source).result = .ok false ∧
      (s.showTable frames source).session = { s with failures := s.failures + 1 } ∧
      Event.lines (s.showTable frames source).events = [] ∧
      (Event.records (s.showTable frames source).events).filter (Record.reaches .error) =
        [.ofLevel .error cause.message]) ∨
    ∃ f, Formula.ofText source = .ok f ∧ (frames ≤ callerLimit → 401 < f.height) ∧
      Table.ofText source (frames + 1) = .error .outOfFrames ∧
      (s.showTable frames source).result = .error .outOfFrames ∧
      (s.showTable frames source).session = s ∧
      Event.lines (s.showTable frames source).events = [] ∧
      (Event.records (s.showTable frames source).events).filter (Record.reaches .error) = [] := by
  have quiet := (Account.quiet_grid source (frames + 1)).errors_eq_nil
  cases tabulated : Table.ofText source (frames + 1) with
  | ok t =>
      obtain ⟨lines, printed⟩ := Table.exists_lines tabulated
      refine .inl ⟨t, lines, rfl, printed, ?_⟩
      rw [showTable_of_ok (Grid.ofText_of_ok tabulated printed)]
      refine ⟨rfl, rfl, ?_, ?_⟩
      · rw [Event.lines_append, Event.lines_map_record, Event.lines_map_line, List.nil_append]
      · rw [Event.records_append, Event.records_map_record, Event.records_map_line,
          List.append_nil, quiet]
  | error cause =>
      rcases Table.ofText_error tabulated with ⟨e, rfl⟩ | ⟨e, known, rfl⟩ | ⟨f, read, _, deep, rfl⟩
      · exact .inr (.inl ⟨_, rfl, .inl ⟨e, rfl⟩, refusal_only tabulated trivial⟩)
      · exact .inr (.inl ⟨_, rfl, .inr ⟨e, known, rfl⟩, refusal_only tabulated trivial⟩)
      · refine .inr (.inr ⟨f, read, fun few => ?_, rfl, ?_⟩)
        · exact Nat.lt_of_le_of_lt (le_evaluationLevels (by omega)) deep
        · rw [showTable_of_escape (Grid.ofText_of_error tabulated)
            FormulaError.not_isRefusal_outOfFrames]
          refine ⟨rfl, rfl, Event.lines_map_record _, ?_⟩
          rw [Event.records_map_record, quiet]

end Session

end Propositional
