import Propositional.Journal

/-!
# Sessions

A session takes lines. A line is a formula, whose table is printed, or one of two reserved words:
`help` prints the legend of the operators and `exit` ends the session. A refused formula is counted
and leaves a record; it ends a strict session and no other.

Everything a session does to the world is an event: a printed line, a record or a prompt. A script
is a list of steps that one session goes through, and the report of a step keeps what was printed
apart from what the journal showed.
-/

set_option autoImplicit false

namespace Propositional

inductive Event where
  /-- a line is printed -/
  | line (text : String)
  /-- a record is written -/
  | record (record : Record)
  /-- a line is asked for -/
  | prompt

structure Session where
  /-- the first refused formula ends the session -/
  exitOnError : Bool := false
  /-- the number of formulas refused so far -/
  failures : Nat := 0

/-- What came of a part of a session, or the error that left it; the state after it, and its events
in order. -/
structure Turn (α : Type) where
  result : Except FormulaError α
  session : Session
  events : List Event

namespace Session

def promptText : String := "> "

def legend : List String :=
  [" ",
    " -------- Help ---------",
    "  Negate          -",
    "  And             ^",
    "  Or              v",
    "  Conditional     ->",
    "  Equivalent      <->",
    ""]

def greeting : Record :=
  .ofLevel .info "Type 'help' for the operator legend, 'exit' to quit."

def help (s : Session) : Turn Unit :=
  ⟨.ok (), s, legend.map .line⟩

/-- Prints the table of a formula, all of it or nothing. The result says whether the formula was
accepted; an error that does not refuse it is not caught. -/
def showTable (s : Session) (frames : Nat) (source : String) : Turn Bool :=
  let account := Account.grid source (frames + 1)
  match account.outcome with
  | .ok lines => ⟨.ok true, s, account.records.map .record ++ lines.map .line⟩
  | .error cause =>
      if cause.IsRefusal then
        ⟨.ok false, { s with failures := s.failures + 1 },
          (account.records ++ Record.refused source cause.message).map .record⟩
      else ⟨.error cause, s, account.records.map .record⟩

def handle (s : Session) (frames : Nat) (line : String) : Turn (Option Nat) :=
  let content := Text.strip line
  if content = "" then ⟨.ok none, s, []⟩
  else if content = "help" then ⟨.ok none, s, s.help.events⟩
  else if content = "exit" then ⟨.ok (some 0), s, []⟩
  else
    let shown := s.showTable (frames + 1) content
    ⟨shown.result.map fun accepted => if !accepted && s.exitOnError then some 1 else none,
      shown.session, shown.events⟩

/-- Takes lines that are given, up to one that ends the session or is left by an error. The result
is its status; there is none if the lines run out. -/
def takeLines (s : Session) (frames : Nat) : List String → Turn (Option Nat)
  | [] => ⟨.ok none, s, []⟩
  | line :: rest =>
      let first := s.handle frames line
      match first.result with
      | .ok none =>
          let later := first.session.takeLines frames rest
          ⟨later.result, later.session, first.events ++ later.events⟩
      | _ => first

def verdict (s : Session) : Nat :=
  if s.failures = 0 then 0 else 1

def settle (turn : Turn (Option Nat)) : Turn Nat :=
  let status : Option Nat → Nat
    | some (status + 1) => status + 1
    | _ => turn.session.verdict
  ⟨turn.result.map status, turn.session, turn.events⟩

def runLines (s : Session) (frames : Nat) (lines : List String) : Turn Nat :=
  settle (s.takeLines (frames + 1) lines)

def askLines (s : Session) (frames : Nat) : List String → Turn (Option Nat)
  | [] => ⟨.ok none, s, [.prompt]⟩
  | line :: rest =>
      let first := s.handle frames line
      match first.result with
      | .ok none =>
          let later := first.session.askLines frames rest
          ⟨later.result, later.session, .prompt :: first.events ++ later.events⟩
      | result => ⟨result, first.session, .prompt :: first.events⟩

def converse (s : Session) (frames : Nat) (lines : List String) : Turn (Option Nat) :=
  let turn := s.askLines (frames + 1) lines
  ⟨turn.result, turn.session, .record greeting :: turn.events⟩

/-- Greets and asks for lines. At the end of the lines an empty line is printed and the status is
zero. -/
def run (s : Session) (frames : Nat) (lines : List String) : Turn Nat :=
  let turn := s.converse frames lines
  match turn.result with
  | .ok (some status) => ⟨.ok status, turn.session, turn.events⟩
  | .ok none => ⟨.ok 0, turn.session, turn.events ++ [.line ""]⟩
  | .error cause => ⟨.error cause, turn.session, turn.events⟩

end Session

/-! ## Scripts -/

namespace Event

def line? : Event → Option String
  | line text => some text
  | _ => none

def record? : Event → Option Record
  | record r => some r
  | _ => none

def isPrompt : Event → Bool
  | prompt => true
  | _ => false

def printed (events : List Event) : String :=
  String.join ((events.filterMap line?).map (· ++ "\n"))

def records (events : List Event) : List Record :=
  events.filterMap record?

def logged (j : Journal) (events : List Event) : String :=
  j.shown (records events)

def prompts (events : List Event) : Nat :=
  events.countP isPrompt

theorem printed_append (first second : List Event) :
    printed (first ++ second) = printed first ++ printed second := by
  simp [printed, String.join_append]

theorem records_append (first second : List Event) :
    records (first ++ second) = records first ++ records second :=
  List.filterMap_append

theorem logged_append (j : Journal) (first second : List Event) :
    logged j (first ++ second) = logged j first ++ logged j second := by
  rw [logged, records_append, Journal.shown_append]
  rfl

theorem prompts_append (first second : List Event) :
    prompts (first ++ second) = prompts first + prompts second :=
  List.countP_append

/-- What a reader sees of some events when prompts, lines and what the journal shows all go to one
place. -/
def transcript (j : Journal) (events : List Event) : String :=
  String.join (events.map fun event =>
    match event with
    | line text => text ++ "\n"
    | record r => j.entry r
    | prompt => Session.promptText)

theorem transcript_append (j : Journal) (first second : List Event) :
    transcript j (first ++ second) = transcript j first ++ transcript j second := by
  simp [transcript, String.join_append]

end Event

namespace Session

inductive Step where
  | handle (line : String)
  | showTable (source : String)
  | help
  | runLines (lines : List String)
  | run (lines : List String)
  | exitOnError (value : Bool)
  | setLevel (level : Level)

inductive Result where
  | none
  | status (value : Nat)
  | accepted (value : Bool)
  deriving DecidableEq

/-- Takes a step. Setting the level of the journal leaves the session alone. -/
def step (s : Session) (frames : Nat) : Step → Turn Result
  | .handle line =>
      let turn := s.handle frames line
      ⟨turn.result.map (·.elim .none .status), turn.session, turn.events⟩
  | .showTable source =>
      let turn := s.showTable frames source
      ⟨turn.result.map .accepted, turn.session, turn.events⟩
  | .help => ⟨.ok .none, s, s.help.events⟩
  | .runLines lines =>
      let turn := s.runLines frames lines
      ⟨turn.result.map .status, turn.session, turn.events⟩
  | .run lines =>
      let turn := s.run frames lines
      ⟨turn.result.map .status, turn.session, turn.events⟩
  | .exitOnError value => ⟨.ok .none, { s with exitOnError := value }, []⟩
  | .setLevel _ => ⟨.ok .none, s, []⟩

def Step.level? : Step → Option Level
  | .setLevel level => some level
  | _ => none

def Step.journalAfter (j : Journal) (step : Step) : Journal :=
  step.level?.elim j j.setLevel

/-- The report of a step: its result or the error that left the session, the failures so far, what
was printed, what the journal showed, and how often a line was asked for. -/
structure Report where
  result : Except FormulaError Result
  failures : Nat
  printed : String
  log : String
  prompts : Nat

def report (j : Journal) (turn : Turn Result) : Report where
  result := turn.result
  failures := turn.session.failures
  printed := Event.printed turn.events
  log := Event.logged j turn.events
  prompts := Event.prompts turn.events

/-- The reports of some steps that one session takes with a journal. An error that leaves a step
does not keep the next one from being taken. -/
def replayFrom (j : Journal) (s : Session) (frames : Nat) : List Step → List Report
  | [] => []
  | step :: rest =>
      let turn := s.step frames step
      report j turn :: replayFrom (step.journalAfter j) turn.session frames rest

def replay (threshold : Level) (s : Session) (frames : Nat) (steps : List Step) : List Report :=
  replayFrom (.opened threshold) s frames steps

end Session

end Propositional
