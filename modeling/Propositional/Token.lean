import Propositional.Text

/-!
# Tokens

A token is a kind, the text it was read from and the place where that text began. A formula text is
split into tokens from left to right. At each place the longest operator that begins there wins, so
an arrow is never read as a negation. Blanks between tokens are skipped, and the first character
that begins no token ends the scan with an error.
-/

set_option autoImplicit false

namespace Propositional

inductive Connective where
  | conjunction
  | disjunction
  | conditional
  | equivalence
  deriving DecidableEq

namespace Connective

def symbol : Connective → String
  | conjunction => "^"
  | disjunction => "v"
  | conditional => "->"
  | equivalence => "<->"

def kindName : Connective → String
  | conjunction => "And"
  | disjunction => "Or"
  | conditional => "Conditional"
  | equivalence => "Equivalent"

def nodeName : Connective → String
  | conjunction => "And"
  | disjunction => "Or"
  | conditional => "Condition"
  | equivalence => "Equivalence"

def apply : Connective → Bool → Bool → Bool
  | conjunction, left, right => left && right
  | disjunction, left, right => left || right
  | conditional, left, right => !(left && !right)
  | equivalence, left, right => left == right

end Connective

inductive Kind where
  | atom
  | negation
  | connective (c : Connective)
  | opening
  | closing
  | finish
  deriving DecidableEq

namespace Kind

def name : Kind → String
  | atom => "Variable"
  | negation => "Negate"
  | connective c => c.kindName
  | opening => "LeftParen"
  | closing => "RightParen"
  | finish => "EOF"

def mnemonic : Kind → String
  | atom => "VARIABLE"
  | negation => "NEGATE"
  | connective .conjunction => "AND"
  | connective .disjunction => "OR"
  | connective .conditional => "CONDITIONAL"
  | connective .equivalence => "EQUIVALENT"
  | opening => "LPAREN"
  | closing => "RPAREN"
  | finish => "EOF"

end Kind

/-- A token. The position counts the characters before it; a token that was not read from a text
has position -1. -/
structure Token where
  kind : Kind
  raw : String
  position : Int := -1
  deriving DecidableEq

namespace Token

def SameWord (a b : Token) : Prop :=
  a.kind = b.kind ∧ a.raw = b.raw

instance (a b : Token) : Decidable (SameWord a b) :=
  inferInstanceAs (Decidable (_ ∧ _))

def finish (position : Int := -1) : Token :=
  ⟨.finish, "", position⟩

def text (t : Token) : String :=
  if t.raw.isEmpty then t.kind.name else t.kind.name ++ "(" ++ t.raw ++ ")"

def longText (t : Token) : String :=
  "Token(kind=<TokenKind." ++ t.kind.mnemonic ++ ": " ++ Text.quote t.kind.name ++ ">, raw="
    ++ Text.quote t.raw ++ ", index=" ++ toString t.position ++ ")"

end Token

/-! ## Scanning -/

structure LexError where
  char : Char
  position : Nat
  deriving DecidableEq

def LexError.message (e : LexError) : String :=
  "Unknown token " ++ String.singleton e.char

namespace Token

def isSpacing (c : Char) : Bool :=
  c == ' ' || c == '\t' || c == '\r' || c == '\n'

/-- The kind of the token that a character forms on its own. The letter `V` is a disjunction, so
it names no atom. -/
def kindOfChar? (c : Char) : Option Kind :=
  if c = '-' then some .negation
  else if c = 'v' ∨ c = 'V' then some (.connective .disjunction)
  else if c = '^' then some (.connective .conjunction)
  else if 'A' ≤ c ∧ c ≤ 'Z' then some .atom
  else if c = '(' then some .opening
  else if c = ')' then some .closing
  else none

def followedBy (t : Token) (rest : Except LexError (List Token)) : Except LexError (List Token) :=
  rest.map (t :: ·)

def scan (position : Nat) : List Char → Except LexError (List Token)
  | [] => .ok [finish position]
  | '<' :: '-' :: '>' :: rest =>
      followedBy ⟨.connective .equivalence, "<->", position⟩ (scan (position + 3) rest)
  | '-' :: '>' :: rest =>
      followedBy ⟨.connective .conditional, "->", position⟩ (scan (position + 2) rest)
  | c :: rest =>
      if isSpacing c then scan (position + 1) rest
      else
        match kindOfChar? c with
        | some kind => followedBy ⟨kind, String.singleton c, position⟩ (scan (position + 1) rest)
        | none => .error ⟨c, position⟩

section Steps

variable (position : Nat) (c : Char) (rest : List Char)

theorem scan_end : scan position [] = .ok [finish position] := by
  rw [scan]

theorem scan_equivalence :
    scan position ('<' :: '-' :: '>' :: rest) =
      followedBy ⟨.connective .equivalence, "<->", position⟩ (scan (position + 3) rest) := by
  rw [scan]

theorem scan_conditional :
    scan position ('-' :: '>' :: rest) =
      followedBy ⟨.connective .conditional, "->", position⟩ (scan (position + 2) rest) := by
  rw [scan]

def NoArrow (chars : List Char) : Prop :=
  (∀ more, chars ≠ '<' :: '-' :: '>' :: more) ∧ ∀ more, chars ≠ '-' :: '>' :: more

variable {c rest} (noArrow : NoArrow (c :: rest))

include noArrow

theorem scan_char :
    scan position (c :: rest) =
      if isSpacing c then scan (position + 1) rest
      else
        match kindOfChar? c with
        | some kind => followedBy ⟨kind, String.singleton c, position⟩ (scan (position + 1) rest)
        | none => .error ⟨c, position⟩ := by
  refine scan.eq_4 position c rest ?_ ?_
  · intro more headEq tailEq
    exact noArrow.1 more (by rw [headEq, tailEq])
  · intro more headEq tailEq
    exact noArrow.2 more (by rw [headEq, tailEq])

theorem scan_single {kind : Kind} (noSpacing : ¬ isSpacing c = true)
    (kindEq : kindOfChar? c = some kind) :
    scan position (c :: rest) =
      followedBy ⟨kind, String.singleton c, position⟩ (scan (position + 1) rest) := by
  rw [scan_char position noArrow, if_neg noSpacing, kindEq]

theorem scan_stray (noSpacing : ¬ isSpacing c = true) (noKind : kindOfChar? c = none) :
    scan position (c :: rest) = .error ⟨c, position⟩ := by
  rw [scan_char position noArrow, if_neg noSpacing, noKind]

omit noArrow in
theorem scan_spacing (spacing : isSpacing c = true) :
    scan position (c :: rest) = scan (position + 1) rest := by
  have noArrow : NoArrow (c :: rest) := by
    constructor
    · rintro more same
      rw [(List.cons.inj same).1] at spacing
      exact absurd spacing (by decide)
    · rintro more same
      rw [(List.cons.inj same).1] at spacing
      exact absurd spacing (by decide)
  rw [scan_char position noArrow, if_pos spacing]

end Steps

/-- Induction on the steps of a scan. -/
@[elab_as_elim]
theorem scan_induct {motive : Nat → List Char → Prop} (finish : ∀ position, motive position [])
    (equivalence : ∀ position rest, motive (position + 3) rest →
      motive position ('<' :: '-' :: '>' :: rest))
    (conditional : ∀ position rest, motive (position + 2) rest →
      motive position ('-' :: '>' :: rest))
    (spacing : ∀ position c rest, isSpacing c = true → motive (position + 1) rest →
      motive position (c :: rest))
    (single : ∀ position c rest kind, NoArrow (c :: rest) → ¬ isSpacing c = true →
      kindOfChar? c = some kind → motive (position + 1) rest → motive position (c :: rest))
    (stray : ∀ position c rest, NoArrow (c :: rest) → ¬ isSpacing c = true →
      kindOfChar? c = none → motive position (c :: rest)) (position : Nat) (chars : List Char) :
    motive position chars := by
  have noArrow {c : Char} {rest : List Char}
      (noEquivalence : ∀ more, c = '<' → rest = '-' :: '>' :: more → False)
      (noConditional : ∀ more, c = '-' → rest = '>' :: more → False) : NoArrow (c :: rest) :=
    ⟨fun more same => noEquivalence more (List.cons.inj same).1 (List.cons.inj same).2,
      fun more same => noConditional more (List.cons.inj same).1 (List.cons.inj same).2⟩
  induction position, chars using scan.induct with
  | case1 position => exact finish position
  | case2 position rest ih => exact equivalence position rest ih
  | case3 position rest ih => exact conditional position rest ih
  | case4 position c rest _ _ isSpace ih => exact spacing position c rest isSpace ih
  | case5 position c rest noEquivalence noConditional noSpacing kind kindEq ih =>
      exact single position c rest kind (noArrow noEquivalence noConditional) noSpacing kindEq ih
  | case6 position c rest noEquivalence noConditional noSpacing noKind =>
      exact stray position c rest (noArrow noEquivalence noConditional) noSpacing noKind

def ofText (text : String) : Except LexError (List Token) :=
  scan 0 text.toList

end Token

end Propositional
