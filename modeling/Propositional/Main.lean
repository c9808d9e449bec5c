import Propositional.CommandLine.Run

/-!
# The program

Reads the command line, and lines from standard input where a session is held. Everything printed
goes out at once.
-/

set_option autoImplicit false

namespace Propositional.CommandLine

/-- The frames of the program in which a session is held. -/
def programFrames : Nat := 2

def abort (fault : Fault) : IO Nat := do
  let stderr ← IO.getStderr
  stderr.putStrLn fault.message
  return 1

/-- Holds a session over the lines of standard input. -/
partial def serve (j : Journal) (s : Session) : IO Nat := do
  let stdin ← IO.getStdin
  let stdout ← IO.getStdout
  stdout.putStr (Event.transcript j [.prompt])
  stdout.flush
  let line ← stdin.getLine
  if line.isEmpty then
    stdout.putStr (Event.transcript j [.line ""])
    return 0
  let turn := s.handle (programFrames + 1) (String.ofList (line.toList.filter (· ≠ '\n')))
  stdout.putStr (Event.transcript j turn.events)
  match turn.result with
  | .ok (some status) => return status
  | .ok none => serve j turn.session
  | .error cause => abort (.uncaught cause)

def launch (arguments : List String) : IO Nat := do
  let stdout ← IO.getStdout
  let stderr ← IO.getStderr
  match Settings.ofArguments arguments with
  | .error halt =>
      let outcome := Outcome.ofHalt halt
      stdout.putStr outcome.stdout
      stderr.putStr outcome.stderr
      return outcome.status
  | .ok given =>
      if given.requested = [] then
        stdout.putStr (Event.transcript given.journal [.record Session.greeting])
        serve given.journal given.session
      else
        let turn := batch given.session programFrames given.requested
        stdout.putStr (Event.transcript given.journal turn.events)
        match turn.result with
        | .ok (some status) => return status
        | .ok none => abort .expressionWithoutText
        | .error cause => abort (.uncaught cause)

end Propositional.CommandLine

def main (arguments : List String) : IO UInt32 :=
  UInt32.ofNat <$> Propositional.CommandLine.launch arguments
