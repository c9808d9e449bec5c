import Propositional.Assignment
import Propositional.Token

/-!
# Formulas

A formula is a tree over atoms. Besides negation and the four connectives it has two forms that
stand for something not yet chosen: a binary node without a connective, which can be printed but
has no meaning, and a hole, which has neither text nor meaning. A formula is printed with every
binary node in parentheses but for the outermost one, so the text never depends on a rule of
precedence. Walks over a formula gather its atoms and its compound parts, and evaluate it.

Reading, walking and printing share one stack of frames. What is left of it for a walk depends on
the frames that the caller of the walk holds.
-/

set_option autoImplicit false

namespace Propositional

inductive Formula where
  | atom (name : String)
  | negation (operand : Formula)
  | binary (c : Connective) (left right : Formula)
  | unspecified (left right : Formula)
  | hole
  deriving DecidableEq

namespace Formula

def rootName : Formula → String
  | atom _ => "Variable"
  | negation _ => "Negation"
  | binary c _ _ => c.nodeName
  | unspecified _ _ => "Binary"
  | hole => "Expr"

def height : Formula → Nat
  | atom _ => 1
  | negation operand => operand.height + 1
  | binary _ left right => max left.height right.height + 1
  | unspecified left right => max left.height right.height + 1
  | hole => 1

theorem height_pos (f : Formula) : 0 < f.height := by
  cases f <;> exact Nat.succ_pos _

theorem exists_below {f : Formula} {levels : Nat} (low : f.height ≤ levels) :
    ∃ below, levels = below + 1 :=
  Nat.exists_eq_add_of_le' (Nat.le_trans f.height_pos low)

theorem height_binary_le {c : Connective} {left right : Formula} {levels : Nat} :
    (binary c left right).height ≤ levels + 1 ↔ left.height ≤ levels ∧ right.height ≤ levels := by
  rw [height, Nat.add_le_add_iff_right, Nat.max_le]

theorem height_unspecified_le {left right : Formula} {levels : Nat} :
    (unspecified left right).height ≤ levels + 1 ↔
      left.height ≤ levels ∧ right.height ≤ levels := by
  rw [height, Nat.add_le_add_iff_right, Nat.max_le]

def Concrete : Formula → Prop
  | atom _ => True
  | negation operand => operand.Concrete
  | binary _ left right => left.Concrete ∧ right.Concrete
  | unspecified _ _ => False
  | hole => False

end Formula

/-! ## Limits on depth -/

def frameLimit : Nat := 1000

/-- The expressions that may be open at a time while a formula is read. -/
def nestingLimit : Nat := frameLimit / 4

def printLimit : Nat := frameLimit

/-- The levels that a walk which gathers parts can enter when its caller holds `frames`: it holds
two more, and then two for every level. -/
def gatheringLevels (frames : Nat) : Nat :=
  (frameLimit - (frames + 2)) / 2

/-- The levels that an evaluation can enter when its caller holds `frames`: it holds one more, and
then two for every level. -/
def evaluationLevels (frames : Nat) : Nat :=
  (frameLimit - (frames + 1)) / 2

/-- The frames that a caller may hold for formulas of 401 levels to be walked on every way from
here: at most nine more are held where a walk begins. -/
def callerLimit : Nat := frameLimit - (2 * 401 + 9)

theorem evaluationLevels_anti {frames more : Nat} (le : frames ≤ more) :
    evaluationLevels more ≤ evaluationLevels frames :=
  Nat.div_le_div_right (Nat.sub_le_sub_left (Nat.add_le_add_right le 1) _)

theorem evaluationLevels_le (frames : Nat) : evaluationLevels frames ≤ printLimit :=
  Nat.le_trans (Nat.div_le_self _ 2) (Nat.sub_le _ _)

theorem le_evaluationLevels {frames : Nat} (few : frames ≤ callerLimit + 8) :
    401 ≤ evaluationLevels frames :=
  evaluationLevels_anti few

inductive WalkError where
  /-- a node without meaning, or without text when printing -/
  | undefined
  /-- a level for which no frame is left -/
  | tooDeep
  deriving DecidableEq

namespace Formula

/-! ## Text -/

def enclose (outermost : Bool) (text : String) : String :=
  if outermost then text else "(" ++ text ++ ")"

def binaryText (outermost : Bool) (symbol : String) (left right : Except WalkError String) :
    Except WalkError String := do
  let before ← left
  let after ← right
  return enclose outermost (before ++ " " ++ symbol ++ " " ++ after)

def textWithin (f : Formula) (levels : Nat) (outermost : Bool) : Except WalkError String :=
  match levels with
  | 0 => .error .tooDeep
  | levels + 1 =>
    match f with
    | atom name => .ok name
    | negation operand => (operand.textWithin levels false).map ("-" ++ ·)
    | binary c left right =>
        binaryText outermost c.symbol (left.textWithin levels false)
          (right.textWithin levels false)
    | unspecified left right =>
        binaryText outermost "?" (left.textWithin levels false) (right.textWithin levels false)
    | hole => .error .undefined

def text (f : Formula) : Except WalkError String :=
  f.textWithin printLimit true

def operandText (f : Formula) : Except WalkError String :=
  f.textWithin printLimit false

def longText : Formula → String
  | atom name => "Variable(name=" ++ Text.quote name ++ ")"
  | negation operand => "Negation(operand=" ++ operand.longText ++ ")"
  | binary c left right =>
      c.nodeName ++ "(left=" ++ left.longText ++ ", right=" ++ right.longText ++ ")"
  | unspecified left right => "Binary(left=" ++ left.longText ++ ", right=" ++ right.longText ++ ")"
  | hole => "Expr()"

/-! ## Parts -/

/-- The names of the atoms of a formula that is at most `levels` levels high, from left to right,
each as often as it occurs. -/
def atomsWithin (f : Formula) (levels : Nat) : Except WalkError (List String) :=
  match levels with
  | 0 => .error .tooDeep
  | levels + 1 =>
    match f with
    | atom name => .ok [name]
    | negation operand => operand.atomsWithin levels
    | binary _ left right => do
        let before ← left.atomsWithin levels
        let after ← right.atomsWithin levels
        return before ++ after
    | unspecified _ _ => .error .undefined
    | hole => .error .undefined

/-- The distinct names of the atoms of a formula, in the order of their first appearance. -/
def atoms (f : Formula) (frames : Nat) : Except WalkError (List String) :=
  (f.atomsWithin (gatheringLevels frames)).map List.eraseDups

def compoundsWithin (f : Formula) (levels : Nat) : Except WalkError (List Formula) :=
  match levels with
  | 0 => .error .tooDeep
  | levels + 1 =>
    match f with
    | atom _ => .ok []
    | negation operand => do
        let inner ← operand.compoundsWithin levels
        return inner ++ [negation operand]
    | binary c left right => do
        let before ← left.compoundsWithin levels
        let after ← right.compoundsWithin levels
        return before ++ after ++ [binary c left right]
    | unspecified _ _ => .error .undefined
    | hole => .error .undefined

def compounds (f : Formula) (frames : Nat) : Except WalkError (List Formula) :=
  f.compoundsWithin (gatheringLevels frames)

end Formula

/-! ## Truth -/

inductive EvalError where
  | unassigned (name : String)
  | walk (cause : WalkError)
  deriving DecidableEq

def EvalError.message : EvalError → String
  | unassigned name => "Variable " ++ name ++ " has no truth value in the assignment"
  | walk _ => ""

namespace Formula

/-- The truth value of a formula that is at most `levels` levels high. Both sides of a connective
are always evaluated, so an atom without a value is an error even where the value would not
matter. -/
def evaluateWithin (f : Formula) (σ : Assignment) (levels : Nat) : Except EvalError Bool :=
  match levels with
  | 0 => .error (.walk .tooDeep)
  | levels + 1 =>
    match f with
    | atom name =>
        match σ.get? name with
        | some value => .ok value
        | none => .error (.unassigned name)
    | negation operand => do
        let value ← operand.evaluateWithin σ levels
        return !value
    | binary c left right => do
        let before ← left.evaluateWithin σ levels
        let after ← right.evaluateWithin σ levels
        return c.apply before after
    | unspecified _ _ => .error (.walk .undefined)
    | hole => .error (.walk .undefined)

def evaluate (f : Formula) (frames : Nat) (σ : Assignment) : Except EvalError Bool :=
  f.evaluateWithin σ (evaluationLevels frames)

end Formula

end Propositional
