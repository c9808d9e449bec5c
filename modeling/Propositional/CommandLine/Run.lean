import Propositional.CommandLine.Settings
import Propositional.Session

/-!
# Running the program

The program as a function of its arguments and of the text that it may read. With formulas on the
command line it prints their tables; without any it holds a session.
-/

set_option autoImplicit false

namespace Propositional.CommandLine

def programName : String := "run_truth_table.py"

def usage : List String :=
  ["usage: run_truth_table.py [-h] [-e FORMULA] [-v] [--debug] [--exit-on-error]",
    "                          [FORMULA ...]"]

def helpLines : List String :=
  usage ++
    ["",
      "Tabula propositional truth table evaluator",
      "",
      "positional arguments:",
      "  FORMULA               Formulas to print, like -e (place after -- when one",
      "                        starts with -)",
      "",
      "options:",
      "  -h, --help            show this help message and exit",
      "  -e FORMULA, --expression FORMULA",
      "                        Print the table of FORMULA and exit (may be repeated)",
      "  -v, --verbose         Enable verbose output",
      "  --debug               Enable debug output (overrides --verbose)",
      "  --exit-on-error       Terminate with status 1 at the first malformed formula",
      "",
      "Examples:",
      "  python run_truth_table.py",
      "  python run_truth_table.py -e \"A -> B\"",
      "  python run_truth_table.py -e \"(A v B) ^ C\" --expression=\"-A <-> B\"",
      "  python run_truth_table.py -- \"-A <-> B\" \"A -> -B\"",
      "  python run_truth_table.py --exit-on-error --debug",
      "",
      "Formula syntax:",
      "  Variables are single uppercase letters. Operators:",
      "    -  negate     ^  and     v  or     ->  conditional     <->  equivalent",
      "  Type 'help' at the prompt for the legend and 'exit' to quit.",
      "        "]

def unlines (lines : List String) : String :=
  String.join (lines.map (· ++ "\n"))

structure Outcome where
  status : Nat
  stdout : String
  stderr : String

namespace Outcome

def ofHalt : Halt → Outcome
  | .help => ⟨0, unlines helpLines, ""⟩
  | .usage cause =>
      ⟨2, "", unlines (usage ++ [programName ++ ": error: " ++ cause.message])⟩

def ofEvents (j : Journal) (events : List Event) (status : Nat) : Outcome :=
  ⟨status, Event.transcript j events, ""⟩

end Outcome

inductive Ending where
  | endOfInput
  | interrupted
  deriving DecidableEq

def interruption : Record :=
  .ofLevel .error "Interrupted by user"

def Settings.session (given : Settings) : Session :=
  { exitOnError := given.exitOnError }

/-- The journal with the threshold that settings ask for. It is opened before they are known. -/
def Settings.journal (given : Settings) : Journal :=
  (Journal.opened .info).setLevel given.threshold

def Settings.requested (given : Settings) : List (Option String) :=
  given.expressions ++ given.formulas.map some

inductive Fault where
  /-- the turn comes to an expression that has no text -/
  | expressionWithoutText
  /-- an error leaves the session -/
  | uncaught (cause : FormulaError)
  deriving DecidableEq

def Fault.message : Fault → String
  | expressionWithoutText => "'list' object has no attribute 'strip'"
  | uncaught cause => cause.message

def textsBeforeGap (requested : List (Option String)) : List String :=
  (requested.takeWhile Option.isSome).filterMap id

/-- Takes the formulas of a command line. There is no status if the session does not end before a
formula without text. -/
def batch (s : Session) (frames : Nat) (requested : List (Option String)) : Turn (Option Nat) :=
  let turn := s.takeLines (frames + 1) (textsBeforeGap requested)
  let settled := Session.settle turn
  match decide (none ∈ requested), turn.result with
  | true, .ok none => turn
  | _, _ => ⟨settled.result.map some, settled.session, settled.events⟩

theorem textsBeforeGap_map_some (lines : List String) :
    textsBeforeGap (lines.map some) = lines := by
  induction lines with
  | nil => rfl
  | cons line rest ih => simpa [textsBeforeGap] using ih

theorem batch_map_some (s : Session) (frames : Nat) (lines : List String) :
    batch s frames (lines.map some) =
      ⟨(s.runLines frames lines).result.map some, (s.runLines frames lines).session,
        (s.runLines frames lines).events⟩ := by
  have gapless : none ∉ lines.map some := by simp
  unfold batch
  rw [textsBeforeGap_map_some, decide_eq_false gapless]
  rfl

def converse (s : Session) (frames : Nat) (lines : List String) : Ending → Turn Nat
  | .endOfInput => s.run frames lines
  | .interrupted =>
      let turn := s.converse frames lines
      match turn.result with
      | .ok (some status) => ⟨.ok status, turn.session, turn.events⟩
      | .ok none => ⟨.ok 4, turn.session, turn.events ++ [.record interruption]⟩
      | .error cause => ⟨.error cause, turn.session, turn.events⟩

/-- The lines of a text, which only a newline ends; `current` holds the characters of the line
begun, the latest first. Text behind the last newline is a line as well. -/
def splitLines (current : List Char) : List Char → List String
  | [] => if current = [] then [] else [String.ofList current.reverse]
  | c :: rest =>
      if c = '\n' then String.ofList current.reverse :: splitLines [] rest
      else splitLines (c :: current) rest

/-- Runs the program on arguments and on the text that it may read. A run that breaks off has no
outcome. -/
def run (arguments : List String) (frames : Nat) (stdin : String) (ending : Ending) :
    Except Fault Outcome :=
  match Settings.ofArguments arguments with
  | .error halt => .ok (.ofHalt halt)
  | .ok given =>
      if given.requested = [] then
        let turn := converse given.session (frames + 1) (splitLines [] stdin.toList) ending
        (turn.result.map (.ofEvents given.journal turn.events)).mapError .uncaught
      else
        let turn := batch given.session (frames + 1) given.requested
        match turn.result with
        | .ok (some status) => .ok (.ofEvents given.journal turn.events status)
        | .ok none => .error .expressionWithoutText
        | .error cause => .error (.uncaught cause)

end Propositional.CommandLine
