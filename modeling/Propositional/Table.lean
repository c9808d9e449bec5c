import Propositional.Formula.Parse

/-!
# Truth tables

A formula is analysed into its atoms and its compound parts, which are the columns of its truth
table. The table has a row for every assignment of the atoms, each with the value of every column,
and is printed as a grid: a header, a rule of dashes and a line for every row. Bars stand between
the cells; an atom's value stands under its name, and a column's value in the middle of the
column's text.
-/

set_option autoImplicit false

namespace Propositional

structure Analysis where
  formula : Formula
  atoms : List String
  columns : List Formula

def Analysis.ofFormula (f : Formula) (frames : Nat) : Except WalkError Analysis := do
  let atoms ← f.atoms frames
  let columns ← f.compounds frames
  return ⟨f, atoms, columns⟩

structure Row where
  assignment : Assignment
  values : List Bool

def Row.ofColumns (columns : List Formula) (frames : Nat) (σ : Assignment) :
    Except EvalError Row := do
  let values ← columns.mapM (·.evaluate frames σ)
  return ⟨σ, values⟩

structure Table extends Analysis where
  rows : List Row

inductive TableError where
  /-- the number of rows has too many digits to be announced -/
  | unwritable
  | evaluate (cause : EvalError)
  deriving DecidableEq

/-- The number of decimal digits that are written of a number. -/
def digitLimit : Nat := 4300

def TableError.message : TableError → String
  | unwritable =>
      "Exceeds the limit (" ++ toString digitLimit ++ " digits) for integer string conversion; "
        ++ "use sys.set_int_max_str_digits() to increase the limit"
  | evaluate cause => cause.message

namespace Table

def announcedAbove : Nat := 10

def Announceable (atoms : Nat) : Prop :=
  announcedAbove < atoms → Assignment.rowCount atoms < Nat.pow 10 digitLimit

instance (atoms : Nat) : Decidable (Announceable atoms) :=
  inferInstanceAs (Decidable (_ → _))

/-- Builds the table of an analysis, row by row, up to the first value that does not exist. The
formula itself must have a text. Three more frames are held where a value is computed. -/
def ofAnalysis (a : Analysis) (frames : Nat) : Except TableError Table :=
  if Announceable a.atoms.length then do
    let rows ← ((List.range (Assignment.rowCount a.atoms.length)).mapM fun r =>
      Row.ofColumns a.columns (frames + 3) (Assignment.row a.atoms r)).mapError .evaluate
    match a.formula.text with
    | .ok _ => return ⟨a, rows⟩
    | .error cause => .error (.evaluate (.walk cause))
  else .error .unwritable

def result (t : Table) (frames : Nat) : Except EvalError (List Bool) :=
  t.rows.mapM fun row => t.formula.evaluate (frames + 2) row.assignment

end Table

/-! ## Grids -/

inductive GridError where
  /-- a column has no text -/
  | column (cause : WalkError)
  /-- an assignment gives no value to an atom -/
  | missing (name : String)
  deriving DecidableEq

def GridError.message : GridError → String
  | column _ => ""
  | missing name => Text.quote name

namespace Grid

def letter (value : Bool) : String :=
  if value then "T" else "F"

def spaces (count : Int) : String :=
  String.ofList (List.replicate count.toNat ' ')

def cells (texts : List String) : String :=
  String.intercalate " |" (texts.map (" " ++ ·)) ++ " |"

def header (atoms columns : List String) : String :=
  "|" ++ cells atoms ++ (if columns.isEmpty then "" else cells columns)

def centred (width : Int) (value : Bool) : String :=
  let half := (width + 1) / 2
  let left := half + (if width % 2 = 0 then 1 else 0)
  spaces left ++ letter value ++ spaces half

def valueIn (row : Row) (name : String) : Except GridError Bool :=
  match row.assignment.get? name with
  | some value => .ok value
  | none => .error (.missing name)

/-- The line of a row, with a cell for every width that has a value. The part behind the atoms is
missing from a table without columns. -/
def line (atoms : List String) (hasColumns : Bool) (row : Row) (widths : List Int) :
    Except GridError String := do
  let values ← atoms.mapM (valueIn row)
  let left := "|" ++ cells (values.map letter)
  if hasColumns then
    return left ++ String.intercalate "|" (List.zipWith centred widths row.values) ++ "|"
  else return left

def columnTexts (columns : List Formula) : Except GridError (List String) :=
  columns.mapM fun column => column.text.mapError .column

def lines (t : Table) : Except GridError (List String) := do
  let texts ← columnTexts t.columns
  let head := header t.atoms texts
  let widths := texts.map fun text => (text.length : Int)
  let body ← t.rows.mapM fun row => line t.atoms (!t.columns.isEmpty) row widths
  return head :: String.ofList (List.replicate head.length '-') :: body

end Grid

/-! ## From a text to its table -/

inductive FormulaError where
  | lex (cause : LexError)
  | parse (cause : ParseError)
  | table (cause : TableError)
  | grid (cause : GridError)
  deriving DecidableEq

namespace FormulaError

def message : FormulaError → String
  | lex cause => cause.message
  | parse cause => cause.message
  | table cause => cause.message
  | grid cause => cause.message

/-- The error says that a text is refused. Any other error is nobody's to catch. -/
def IsRefusal : FormulaError → Prop
  | lex _ => True
  | parse _ => True
  | table (.evaluate (.unassigned _)) => True
  | _ => False

instance : DecidablePred IsRefusal
  | lex _ => .isTrue trivial
  | parse _ => .isTrue trivial
  | table .unwritable => .isFalse id
  | table (.evaluate (.unassigned _)) => .isTrue trivial
  | table (.evaluate (.walk _)) => .isFalse id
  | grid _ => .isFalse id

end FormulaError

def Formula.ofText (source : String) : Except FormulaError Formula := do
  let tokens ← (Token.ofText source).mapError .lex
  (Formula.ofTokens (tokens.map some)).mapError .parse

/-- The analysis of the formula that a text says. A formula that is too high to be walked is
refused. -/
def Analysis.ofText (source : String) (frames : Nat) : Except FormulaError Analysis := do
  let formula ← Formula.ofText source
  (Analysis.ofFormula formula (frames + 1)).mapError fun _ => .parse .tooTall

/-- The truth table of the formula that a text says. An evaluation for which no frame is left is
not refused, but escapes. -/
def Table.ofText (source : String) (frames : Nat) : Except FormulaError Table := do
  let analysis ← Analysis.ofText source (frames + 1)
  (Table.ofAnalysis analysis (frames + 1)).mapError .table

def Grid.ofText (source : String) (frames : Nat) : Except FormulaError (List String) := do
  let table ← Table.ofText source frames
  (Grid.lines table).mapError .grid

end Propositional
