import Propositional.Formula

/-!
# Reading formulas from tokens

Formulas are read without rules of precedence. Expressions collect on a working stack: an atom, a
negation or a group in parentheses is added to it, and a connective takes the latest expression
off the stack as its left operand. Its right operand goes on for as long as the same connective
follows, so a chain of one connective nests to the right, and a change of connective takes all
that stands before it as the left operand. Every group and every right operand has a stack of its
own, so no connective reaches out of its group.

A reader says in its type that it leaves fewer tokens than it was given. That is what makes the
loops over the tokens end.
-/

set_option autoImplicit false

namespace Propositional

inductive ParseError where
  /-- there is no token before the end -/
  | emptyInput (finish : Token)
  /-- more than one expression is left at the end; their texts, in order -/
  | several (texts : List String)
  /-- a connective stands where no expression precedes it -/
  | missingLeft (operator : Token)
  /-- a token begins no expression -/
  | unexpected (token : Token)
  /-- a group is not closed before the end -/
  | unterminated (opening : Token)
  /-- a group holds no expression -/
  | emptyGroup (opening : Token)
  /-- a group holds more than one expression -/
  | crowdedGroup (count : Nat) (opening : Token)
  /-- too many expressions are open at a token, or at a gap -/
  | tooDeep (token : Option Token)
  /-- a formula is too high to be printed or walked -/
  | tooTall
  /-- a place of the sequence holds no token -/
  | gap
  deriving DecidableEq

namespace ParseError

def message : ParseError → String
  | emptyInput _ => "Input formula is empty."
  | several texts =>
      "Expected a single expression, found " ++ toString texts.length ++ ": "
        ++ String.intercalate ", " texts
  | missingLeft operator => "Missing left operand for " ++ operator.kind.name
  | unexpected token => "Unexpected token " ++ token.kind.name
  | unterminated _ => "Unterminated parenthesis group"
  | emptyGroup _ => "Empty parenthesis group"
  | crowdedGroup count _ =>
      "Parenthesis group holds " ++ toString count ++ " expressions instead of one"
  | tooDeep _ => "Formula is nested too deeply"
  | tooTall => "Formula is nested too deeply"
  | gap => "'NoneType' object has no attribute 'kind'"

def token? : ParseError → Option Token
  | emptyInput finish => some finish
  | several _ => none
  | missingLeft operator => some operator
  | unexpected token => some token
  | unterminated opening => some opening
  | emptyGroup opening => some opening
  | crowdedGroup _ opening => some opening
  | tooDeep token => token
  | tooTall => none
  | gap => none

end ParseError

/-- A token sequence ready to be read: the tokens before its end, and the end token. There is no
end token if the sequence has a gap before one. -/
structure TokenInput where
  tokens : List Token
  finish? : Option Token

namespace TokenInput

def cut : List (Option Token) → TokenInput
  | [] => ⟨[], some (Token.finish)⟩
  | none :: _ => ⟨[], none⟩
  | some token :: rest =>
      if token.kind = .finish then ⟨[], some token⟩
      else
        let later := cut rest
        ⟨token :: later.tokens, later.finish?⟩

/-- A sequence must not end in a gap, not even behind its first end token. -/
def ofTokens (tokens : List (Option Token)) : Except ParseError TokenInput :=
  if tokens.getLast? = some none then .error .gap else .ok (cut tokens)

def checkEnd (input : TokenInput) : Except ParseError Unit :=
  match input.finish? with
  | some _ => .ok ()
  | none => .error .gap

def current? (input : TokenInput) (rest : List Token) : Option Token :=
  match rest with
  | [] => input.finish?
  | token :: _ => some token

end TokenInput

namespace Formula

structure Operand (bound : Nat) where
  formula : Formula
  rest : List Token
  shorter : rest.length < bound

structure Expression (bound : Nat) extends Operand bound where
  stack : List Formula

structure Collection (bound : Nat) where
  stack : List Formula
  rest : List Token
  noLonger : rest.length ≤ bound

abbrev Reader : Type :=
  List Formula → (tokens : List Token) → Except ParseError (Expression tokens.length)

/-- Reads expressions onto a stack up to a token of a closing kind or the end. -/
def collect (read : Reader) (input : TokenInput) (closes : Kind → Bool) (stack : List Formula)
    (tokens : List Token) : Except ParseError (Collection tokens.length) :=
  match tokens with
  | [] => do
      input.checkEnd
      return ⟨stack, [], Nat.le_refl _⟩
  | token :: rest =>
      if closes token.kind then .ok ⟨stack, token :: rest, Nat.le_refl _⟩
      else do
        let step ← read stack (token :: rest)
        let later ← collect read input closes (step.formula :: step.stack) step.rest
        return ⟨later.stack, later.rest,
          Nat.le_of_lt (Nat.lt_of_le_of_lt later.noLonger step.shorter)⟩
termination_by tokens.length
decreasing_by exact step.shorter

def absorb (read : Reader) (input : TokenInput) (c : Connective) (stack : List Formula)
    (operand : Formula) (tokens : List Token) : Except ParseError (Operand (tokens.length + 1)) :=
  match tokens with
  | [] => do
      input.checkEnd
      return ⟨operand, [], Nat.lt_succ_self _⟩
  | token :: rest =>
      if token.kind = .connective c then do
        let step ← read (operand :: stack) (token :: rest)
        let last ← absorb read input c step.stack step.formula step.rest
        return ⟨last.formula, last.rest, Nat.lt_of_lt_of_le last.shorter
          (Nat.le_trans step.shorter (Nat.le_succ _))⟩
      else .ok ⟨operand, token :: rest, Nat.lt_succ_self _⟩
termination_by tokens.length
decreasing_by exact step.shorter

def chain (read : Reader) (input : TokenInput) (c : Connective) (tokens : List Token) :
    Except ParseError (Operand tokens.length) := do
  let first ← read [] tokens
  let last ← absorb read input c first.stack first.formula first.rest
  return ⟨last.formula, last.rest, Nat.lt_of_lt_of_le last.shorter first.shorter⟩

def group (read : Reader) (input : TokenInput) (opening : Token) (tokens : List Token) :
    Except ParseError (Operand tokens.length) := do
  let inside ← collect read input (· = .closing) [] tokens
  match inside with
  | ⟨_, [], _⟩ => .error (.unterminated opening)
  | ⟨[], _ :: _, _⟩ => .error (.emptyGroup opening)
  | ⟨[formula], _ :: rest, noLonger⟩ => .ok ⟨formula, rest, noLonger⟩
  | ⟨stack, _ :: _, _⟩ => .error (.crowdedGroup stack.length opening)

/-- Reads one expression while at most `allowance` expressions may be open. The allowance is
looked at before the token. -/
def expression (input : TokenInput) : Nat → Reader
  | 0, _, tokens => .error (.tooDeep (input.current? tokens))
  | _ + 1, _, [] => .error (input.finish?.elim .gap .unexpected)
  | allowance + 1, stack, token :: rest =>
    match token.kind with
    | .negation => do
        let operand ← expression input allowance [] rest
        return ⟨⟨.negation operand.formula, operand.rest, Nat.lt_succ_of_lt operand.shorter⟩, stack⟩
    | .atom => .ok ⟨⟨.atom token.raw, rest, Nat.lt_succ_self _⟩, stack⟩
    | .connective c =>
        match stack with
        | [] => .error (.missingLeft token)
        | left :: below => do
            let right ← chain (expression input allowance) input c rest
            return ⟨⟨.binary c left right.formula, right.rest, Nat.lt_succ_of_lt right.shorter⟩,
              below⟩
    | .opening => do
        let inner ← group (expression input allowance) input token rest
        return ⟨⟨inner.formula, inner.rest, Nat.lt_succ_of_lt inner.shorter⟩, stack⟩
    | .closing => .error (.unexpected token)
    | .finish => .error (.unexpected token)

def single (input : TokenInput) : List Formula → Except ParseError Formula
  | [] => .error (input.finish?.elim .gap .emptyInput)
  | [formula] => .ok formula
  | stack =>
      match stack.reverse.mapM text with
      | .ok texts => .error (.several texts)
      | .error _ => .error .tooTall

def ofInput (input : TokenInput) : Except ParseError Formula := do
  let all ← collect (expression input nestingLimit) input (fun _ => false) [] input.tokens
  single input all.stack

/-- Reads a token sequence, which may have gaps, as one formula. A formula that is too high to be
printed is refused. -/
def ofTokens (tokens : List (Option Token)) : Except ParseError Formula := do
  let input ← TokenInput.ofTokens tokens
  let formula ← ofInput input
  match formula.text with
  | .ok _ => .ok formula
  | .error _ => .error .tooTall

end Formula

end Propositional
