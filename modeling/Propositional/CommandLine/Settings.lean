import Propositional.Journal

/-!
# Settings given by the command line

Each word of a command line is plain text, the separator, a switch or unknown. Behind the separator
every word is plain. A long switch may be abbreviated, and text may be attached to a switch: behind
an equals sign, or directly behind a letter. The words are taken from left to right. The first
unbroken run of plain words holds formulas; plain words behind it, other than the values of
switches, belong to nothing.
-/

set_option autoImplicit false

namespace Propositional.CommandLine

inductive Switch where
  | help
  | expression
  | verbose
  | debug
  | exitOnError
  deriving DecidableEq

namespace Switch

def spellings : List (String × Switch) :=
  [("-h", help), ("--help", help), ("-e", expression), ("--expression", expression),
    ("-v", verbose), ("--verbose", verbose), ("--debug", debug), ("--exit-on-error", exitOnError)]

def ofSpelling? (text : String) : Option Switch :=
  spellings.lookup text

def ofLetter? (letter : Char) : Option Switch :=
  ofSpelling? (String.ofList ['-', letter])

def title (s : Switch) : String :=
  String.intercalate "/" ((spellings.filter fun entry => entry.2 = s).map Prod.fst)

def takesValue : Switch → Bool
  | expression => true
  | _ => false

end Switch

inductive UsageError where
  /-- a word abbreviates several spellings -/
  | ambiguous (word : String) (candidates : List String)
  /-- a switch with a value stands without one -/
  | missingValue (s : Switch)
  /-- a switch without a value has text attached to it -/
  | unusedText (s : Switch) (text : String)
  /-- words that belong to nothing -/
  | unrecognized (words : List String)
  deriving DecidableEq

def UsageError.message : UsageError → String
  | ambiguous word candidates =>
      "ambiguous option: " ++ word ++ " could match " ++ String.intercalate ", " candidates
  | missingValue s => "argument " ++ s.title ++ ": expected one argument"
  | unusedText s text =>
      "argument " ++ s.title ++ ": ignored explicit argument " ++ Text.quote text
  | unrecognized words => "unrecognized arguments: " ++ String.intercalate " " words

/-! ## Words -/

inductive Word where
  /-- text that is no switch -/
  | plain (text : String)
  /-- the two dashes behind which every word is plain -/
  | separator
  /-- a switch, whether a single dash introduced it, and the text attached to it -/
  | switch (s : Switch) (short : Bool) (attached : Option String)
  /-- looks like a switch and is none -/
  | unknown (text : String)
  deriving DecidableEq

namespace Word

def separatorText : String := "--"

/-- A minus sign before decimal digits, which may hold one point that digits follow. A newline may
end the word. -/
def isNegativeNumber (word : List Char) : Bool :=
  match word with
  | '-' :: rest =>
      let body := if rest.getLast? = some '\n' then rest.dropLast else rest
      match body.dropWhile Text.isDecimalDigit with
      | [] => !body.isEmpty
      | '.' :: fraction => !fraction.isEmpty && fraction.all Text.isDecimalDigit
      | _ => false
  | _ => false

def splitAtEquals (word : List Char) : List Char × Option (List Char) :=
  let name := word.takeWhile (· ≠ '=')
  match word.dropWhile (· ≠ '=') with
  | [] => (name, none)
  | _ :: value => (name, some value)

def isShort (spelling : List Char) : Bool :=
  spelling.take 2 ≠ ['-', '-']

/-- The switches that a word can stand for when it is no exact spelling: those whose long spelling
it begins, or the one whose letter it begins with. Each comes with its spelling. -/
def candidates (word : List Char) : List (String × Word) :=
  if isShort word then
    match Switch.ofSpelling? (String.ofList (word.take 2)) with
    | some s => [(String.ofList (word.take 2), .switch s true (some (String.ofList (word.drop 2))))]
    | none => []
  else
    let parts := splitAtEquals word
    (Switch.spellings.filter fun entry => parts.1.isPrefixOf entry.1.toList).map fun entry =>
      (entry.1, .switch entry.2 false (parts.2.map String.ofList))

/-- What a word is for itself. Of the words that begin with a dash and are no switch, a lone dash,
a negative number and anything with a space in it are plain. -/
def classify (text : String) : Except UsageError Word :=
  let word := text.toList
  if word.head? ≠ some '-' then .ok (.plain text)
  else
    match Switch.ofSpelling? text with
    | some s => .ok (.switch s (isShort word) none)
    | none =>
      if word.length = 1 then .ok (.plain text)
      else
        let parts := splitAtEquals word
        match parts.2, Switch.ofSpelling? (String.ofList parts.1) with
        | some value, some s => .ok (.switch s (isShort parts.1) (some (String.ofList value)))
        | _, _ =>
          match candidates word with
          | [only] => .ok only.2
          | [] =>
              if isNegativeNumber word || word.contains ' ' then .ok (.plain text)
              else .ok (.unknown text)
          | several => .error (.ambiguous text (several.map Prod.fst))

def ofArguments : List String → Except UsageError (List Word)
  | [] => .ok []
  | text :: rest =>
      if text = separatorText then .ok (.separator :: rest.map .plain)
      else do
        let word ← classify text
        let words ← ofArguments rest
        return word :: words

end Word

/-! ## Settings -/

structure Settings where
  expressions : List (Option String) := []
  formulas : List String := []
  verbose : Bool := false
  debug : Bool := false
  exitOnError : Bool := false

inductive Halt where
  /-- the help text is asked for -/
  | help
  /-- the command line is wrong -/
  | usage (cause : UsageError)
  deriving DecidableEq

inductive Demand where
  | nothing
  /-- the last switch takes the value attached to it -/
  | value (text : String)
  /-- the last switch takes the next word -/
  | nextWord (s : Switch)

structure Cluster where
  flags : List Switch
  demand : Demand

namespace Cluster

def alone (s : Switch) : Cluster :=
  if s.takesValue then ⟨[], .nextWord s⟩ else ⟨[s], .nothing⟩

def add (s : Switch) (rest : Cluster) : Cluster :=
  ⟨s :: rest.flags, rest.demand⟩

def letters (s : Switch) : List Char → Except UsageError Cluster
  | [] => .error (.unusedText s "")
  | letter :: rest =>
      match Switch.ofLetter? letter with
      | none => .error (.unusedText s (String.ofList (letter :: rest)))
      | some next =>
          if rest = [] then .ok (add s (alone next))
          else if next.takesValue then .ok (add s ⟨[], .value (String.ofList rest)⟩)
          else (letters next rest).map (add s)

def ofSwitch (s : Switch) (short : Bool) : Option String → Except UsageError Cluster
  | none => .ok (alone s)
  | some text =>
      if s.takesValue then .ok ⟨[], .value text⟩
      else if short then letters s text.toList
      else .error (.unusedText s text)

end Cluster

namespace Settings

def set (given : Settings) : Switch → Except Halt Settings
  | .help => .error .help
  | .expression => .ok given
  | .verbose => .ok { given with verbose := true }
  | .debug => .ok { given with debug := true }
  | .exitOnError => .ok { given with exitOnError := true }

def setAll (given : Settings) (flags : List Switch) : Except Halt Settings :=
  flags.foldlM set given

/-- Adds the value of an expression switch. The separator is taken out of the values of a switch
wherever it stands, so an expression that is the separator keeps its place and loses its text. -/
def addExpression (given : Settings) (text : String) : Settings :=
  let value := if text = Word.separatorText then none else some text
  { given with expressions := given.expressions ++ [value] }

def addFormula (given : Settings) (text : String) : Settings :=
  { given with formulas := given.formulas ++ [text] }

inductive Phase where
  | awaited
  | running
  | ended
  deriving DecidableEq

def Phase.interrupt : Phase → Phase
  | awaited => awaited
  | running => ended
  | ended => ended

/-- Takes the words of a command line. The words that belong to nothing are kept and reported at
the end. -/
def take (phase : Phase) (given : Settings) (extras : List String) :
    List Word → Except Halt Settings
  | [] => if extras = [] then .ok given else .error (.usage (.unrecognized extras))
  | .plain text :: rest =>
      if phase = .ended then take .ended given (extras ++ [text]) rest
      else take .running (given.addFormula text) extras rest
  | .separator :: rest =>
      if phase = .ended then take .ended given (extras ++ [Word.separatorText]) rest
      else take .running given extras rest
  | .unknown text :: rest => take phase.interrupt given (extras ++ [text]) rest
  | .switch s short attached :: rest =>
      match Cluster.ofSwitch s short attached with
      | .error cause => .error (.usage cause)
      | .ok ⟨flags, .nothing⟩ => do
          let after ← given.setAll flags
          take phase.interrupt after extras rest
      | .ok ⟨flags, .value text⟩ => do
          let after ← given.setAll flags
          take phase.interrupt (after.addExpression text) extras rest
      | .ok ⟨flags, .nextWord waiting⟩ =>
          match rest with
          | .plain text :: later => do
              let after ← given.setAll flags
              take phase.interrupt (after.addExpression text) extras later
          | _ => .error (.usage (.missingValue waiting))

/-- The settings that a command line gives. An ambiguous word counts before anything else. -/
def ofArguments (arguments : List String) : Except Halt Settings :=
  match Word.ofArguments arguments with
  | .ok words => take .awaited {} [] words
  | .error cause => .error (.usage cause)

def threshold (given : Settings) : Level :=
  .ofSwitches given.debug given.verbose

end Settings

end Propositional.CommandLine
