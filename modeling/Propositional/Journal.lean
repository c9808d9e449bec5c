import Propositional.Table
import Propositional.Text

/-!
# Journals and accounts

Activities write records of different weight. A journal shows the records that reach its threshold
and that of an outlet, each on a line of its own.

An account of an activity is its outcome together with the records it wrote. The accounts below
follow a formula text on its way to a table, with the outcomes of the activities themselves.
-/

set_option autoImplicit false

namespace Propositional

inductive Level where
  | debug
  | info
  | warning
  | error
  deriving DecidableEq

namespace Level

def weight : Level → Int
  | debug => 10
  | info => 20
  | warning => 30
  | error => 40

def ofSwitches (debug verbose : Bool) : Level :=
  if debug then .debug else if verbose then .info else .warning

end Level

/-- A record: its weight and what it says. -/
structure Record where
  weight : Int
  message : String
  deriving DecidableEq

namespace Record

def ofLevel (level : Level) (message : String) : Record :=
  ⟨level.weight, message⟩

def debug (message : String) : Record :=
  ofLevel .debug message

def reaches (threshold : Level) (r : Record) : Bool :=
  threshold.weight ≤ r.weight

/-- The text of a record. From the weight of general progress on it is the bare message; a lighter
record names its level first. -/
def text (r : Record) : String :=
  if Level.info.weight ≤ r.weight then r.message
  else if r.weight = Level.debug.weight then "[DEBUG] " ++ r.message
  else "[Level " ++ toString r.weight ++ "] " ++ r.message

def refused (source reason : String) : List Record :=
  [debug ("Rejected formula: " ++ Text.quote source), ofLevel .error reason]

def tableBuilt (source : String) (rows columns : Int) : Record :=
  debug ("Built table for " ++ Text.quote source ++ ": " ++ toString rows ++ " rows x "
    ++ toString columns ++ " columns")

end Record

/-- A journal shows its records on outlets. It has a threshold, and so has each of the outlets. -/
structure Journal where
  threshold : Level
  outlets : List Level

namespace Journal

def opened (threshold : Level) : Journal :=
  ⟨threshold, [threshold]⟩

def setLevel (j : Journal) (level : Level) : Journal :=
  ⟨level, j.outlets.map fun _ => level⟩

/-- What a journal shows of a record. A record that reaches the threshold of the journal is a line
on every outlet whose threshold it reaches. -/
def entry (j : Journal) (r : Record) : String :=
  if r.reaches j.threshold then
    String.join ((j.outlets.filter fun outlet => r.reaches outlet).map fun _ => r.text ++ "\n")
  else ""

def shown (j : Journal) (records : List Record) : String :=
  String.join (records.map j.entry)

def transcript (threshold : Level) (records : List Record) : String :=
  String.join ((records.filter (Record.reaches threshold)).map fun r => r.text ++ "\n")

theorem transcript_append (threshold : Level) (first second : List Record) :
    transcript threshold (first ++ second) =
      transcript threshold first ++ transcript threshold second := by
  simp [transcript, String.join_append]

theorem shown_append (j : Journal) (first second : List Record) :
    j.shown (first ++ second) = j.shown first ++ j.shown second := by
  simp [shown, String.join_append]

theorem shown_opened (threshold : Level) (records : List Record) :
    (opened threshold).shown records = transcript threshold records := by
  induction records with
  | nil => rfl
  | cons r rest ih =>
      rw [shown] at ih
      rw [shown, List.map_cons, String.join_cons, ih, transcript, transcript]
      by_cases reached : r.reaches threshold = true
      · simp [entry, opened, reached]
      · simp [entry, opened, reached]

theorem setLevel_opened (threshold level : Level) :
    (opened threshold).setLevel level = opened level :=
  rfl

inductive Step where
  /-- a record is written -/
  | write (record : Record)
  /-- a formula is refused -/
  | refuse (source reason : String)
  /-- a table is finished -/
  | build (source : String) (rows columns : Int)
  /-- the threshold is set -/
  | setLevel (level : Level)
  /-- the threshold is chosen by two switches -/
  | configure (debug verbose : Bool)

namespace Step

def records : Step → List Record
  | write record => [record]
  | refuse source reason => Record.refused source reason
  | build source rows columns => [Record.tableBuilt source rows columns]
  | setLevel _ => []
  | configure _ _ => []

def after (j : Journal) : Step → Journal
  | setLevel level => j.setLevel level
  | configure debug verbose => j.setLevel (Level.ofSwitches debug verbose)
  | _ => j

end Step

def replayFrom (j : Journal) : List Step → List (String × Level)
  | [] => []
  | step :: rest =>
      let next := step.after j
      (j.shown step.records, next.threshold) :: next.replayFrom rest

def replay (threshold : Level) (steps : List Step) : List (String × Level) :=
  (opened threshold).replayFrom steps

end Journal

/-! ## Accounts -/

/-- What came of an activity, and the records it wrote. -/
structure Account (α : Type) where
  outcome : Except FormulaError α
  records : List Record

namespace Account

def andThen {α β : Type} (first : Account α) (next : α → Account β) : Account β :=
  match first.outcome with
  | .ok value =>
      let second := next value
      ⟨second.outcome, first.records ++ second.records⟩
  | .error cause => ⟨.error cause, first.records⟩

theorem outcome_andThen {α β : Type} (first : Account α) (next : α → Account β) :
    (first.andThen next).outcome = first.outcome.bind fun value => (next value).outcome := by
  unfold andThen Except.bind
  cases first.outcome <;> rfl

def scanRecords : Except LexError (List Token) → List Record
  | .ok tokens =>
      [.debug ("Tokens: [" ++ String.intercalate ", " (tokens.map fun t => Text.quote t.text)
        ++ "]")]
  | .error cause =>
      [.debug ("Unknown character '" ++ String.singleton cause.char ++ "' at position "
        ++ toString cause.position)]

def textOf (f : Formula) : String :=
  match f.text with
  | .ok text => text
  | .error _ => ""

/-- The records of reading a formula. A formula that is too high leaves no record, and a gap is not
expected. -/
def parseRecords : Except ParseError Formula → List Record
  | .ok formula =>
      [.debug ("Successfully parsed formula into " ++ formula.rootName ++ ": " ++ textOf formula)]
  | .error .tooTall => []
  | .error .gap =>
      [.debug ("Unexpected parsing error: AttributeError: " ++ ParseError.gap.message)]
  | .error _ => [.debug "ParseError encountered during formula parsing"]

def analysisRecords : Except WalkError Analysis → List Record
  | .ok analysis =>
      [.debug ("Collected " ++ toString analysis.atoms.length ++ " variables and "
        ++ toString analysis.columns.length ++ " sub-expressions")]
  | .error _ => []

/-- The records before a table is built: a large one is announced, if its number of rows can be
written. -/
def announcement (atoms : Nat) : List Record :=
  if Table.announcedAbove < atoms ∧ Table.Announceable atoms then
    [.ofLevel .warning ("Formula has " ++ toString atoms ++ " variables, building "
      ++ toString (Assignment.rowCount atoms) ++ " rows")]
  else []

def buildRecords : Except TableError Table → List Record
  | .ok table =>
      [.tableBuilt (textOf table.formula) table.rows.length
        (table.atoms.length + table.columns.length)]
  | .error _ => []

def tokens (source : String) : Account (List Token) :=
  let outcome := Token.ofText source
  ⟨outcome.mapError .lex, scanRecords outcome⟩

def formula (source : String) : Account Formula :=
  (tokens source).andThen fun tokens =>
    let outcome := Formula.ofTokens (tokens.map some)
    ⟨outcome.mapError .parse, parseRecords outcome⟩

def analysis (source : String) (frames : Nat) : Account Analysis :=
  let read := (formula source).andThen fun formula =>
    let outcome := Analysis.ofFormula formula (frames + 1)
    ⟨outcome.mapError fun _ => .parse .tooTall, analysisRecords outcome⟩
  ⟨read.outcome, .debug ("Analyzing formula: " ++ source) :: read.records⟩

def build (a : Analysis) (frames : Nat) : Account Table :=
  let outcome := Table.ofAnalysis a frames
  ⟨outcome.mapError .table, announcement a.atoms.length ++ buildRecords outcome⟩

def table (source : String) (frames : Nat) : Account Table :=
  (analysis source (frames + 1)).andThen (build · (frames + 1))

def grid (source : String) (frames : Nat) : Account (List String) :=
  (table source frames).andThen fun table => ⟨(Grid.lines table).mapError .grid, []⟩

/-! ## Outcomes -/

theorem outcome_formula (source : String) :
    (formula source).outcome = Formula.ofText source := by
  rw [formula, outcome_andThen]
  rfl

variable (source : String) (frames : Nat)

theorem outcome_analysis : (analysis source frames).outcome = Analysis.ofText source frames := by
  simp only [analysis, outcome_andThen, outcome_formula]
  rfl

theorem outcome_table : (table source frames).outcome = Table.ofText source frames := by
  rw [table, outcome_andThen, outcome_analysis]
  rfl

theorem outcome_grid : (grid source frames).outcome = Grid.ofText source frames := by
  rw [grid, outcome_andThen, outcome_table]
  rfl

end Account

end Propositional
