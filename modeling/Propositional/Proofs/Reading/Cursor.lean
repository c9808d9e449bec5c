import Propositional.Formula.Parse

/-!
# Reading with a cursor

The reader as a cursor that moves over one token sequence. The cursor knows the place of the next
token and the number of open expressions, and it keeps the places of the tokens it has passed and
the calls that have come to an end.

Nothing in a loop says that it ends. So the loops and the nesting of the calls get a number of
rounds, and what needs more of them has no outcome at all.
-/

set_option autoImplicit false

namespace Propositional

structure Place where
  position : Nat := 0
  depth : Nat := 0
  deriving DecidableEq

inductive Routine where
  | expression
  | chain
  | group
  deriving DecidableEq

/-- A call that has come to an end: where it began and where it ended, and whether it gave back a
formula. -/
structure Call where
  routine : Routine
  start : Place
  finish : Place
  returned : Bool
  deriving DecidableEq

structure Cursor extends Place where
  /-- the places of the tokens that were passed, in order -/
  taken : List Nat := []
  /-- the calls that have come to an end, in order -/
  calls : List Call := []
  deriving DecidableEq

/-- Why a passage breaks off. -/
inductive Fault where
  /-- the reader refuses the tokens -/
  | refused (cause : ParseError)
  /-- there is no token at the place of the cursor -/
  | outside
  deriving DecidableEq

/-- A passage of a cursor gives back a value or breaks off, or it has no outcome. -/
abbrev Passage : Type → Type :=
  ExceptT Fault (StateT Cursor Option)

namespace Cursor

def passed (c : Cursor) : Cursor :=
  { c with position := c.position + 1, taken := c.taken ++ [c.position] }

def entered (c : Cursor) : Cursor :=
  { c with depth := c.depth + 1 }

def left (c : Cursor) : Cursor :=
  { c with depth := c.depth - 1 }

def noting (c : Cursor) (call : Call) : Cursor :=
  { c with calls := c.calls ++ [call] }

def unending {α : Type} : Passage α :=
  fun _ => none

def calling {α : Type} (routine : Routine) (body : Passage α) : Passage α := fun start => do
  let (outcome, finish) ← body start
  return (outcome, finish.noting ⟨routine, start.toPlace, finish.toPlace, outcome.isOk⟩)

/-- Counts one more open expression up to the end of a passage, whatever the end is. -/
def deeper {α : Type} (body : Passage α) : Passage α := fun start => do
  let (outcome, finish) ← body start.entered
  return (outcome, finish.left)

abbrev Reader : Type :=
  List Formula → Passage (Formula × List Formula)

/-- The sequence over which the cursor moves: an end token is put behind tokens that do not end in
one. -/
def track (tokens : List Token) : List Token :=
  if tokens.getLast?.map (·.kind) = some .finish then tokens else tokens ++ [Token.finish]

section Passages

variable (track : List Token)

def current : Passage Token := fun here =>
  match track[here.position]? with
  | some token => some (.ok token, here)
  | none => some (.error .outside, here)

/-- Passes the token at which the cursor stands, unless that is an end token. -/
def advance : Passage Token := do
  let token ← current track
  if token.kind = .finish then return token
  else
    modify passed
    return token

def collect (read : Reader) (closes : Kind → Bool) : Nat → List Formula → Passage (List Formula)
  | 0, _ => unending
  | rounds + 1, stack => do
      let token ← current track
      if closes token.kind then return stack
      else
        let (formula, below) ← read stack
        collect read closes rounds (formula :: below)

def absorb (read : Reader) (c : Connective) : Nat → List Formula → Formula → Passage Formula
  | 0, _, _ => unending
  | rounds + 1, stack, operand => do
      let token ← current track
      if token.kind = .connective c then
        let (formula, below) ← read (operand :: stack)
        absorb read c rounds below formula
      else return operand

def chain (read : Reader) (rounds : Nat) (c : Connective) : Passage Formula :=
  calling .chain do
    let (operand, stack) ← read []
    absorb track read c rounds stack operand

def only (opening : Token) : List Formula → Passage Formula
  | [] => throw (.refused (.emptyGroup opening))
  | [formula] => return formula
  | stack => throw (.refused (.crowdedGroup stack.length opening))

def group (read : Reader) (rounds : Nat) : Passage Formula :=
  calling .group do
    let opening ← advance track
    let stack ← collect track read (fun kind => kind = .closing || kind = .finish) rounds []
    let token ← current track
    if token.kind = .finish then throw (.refused (.unterminated opening))
    else
      let _ ← advance track
      only opening stack

def beginning (read : Reader) (rounds : Nat) (token : Token) (stack : List Formula) :
    Passage (Formula × List Formula) :=
  match token.kind with
  | .negation => do
      let _ ← advance track
      let (operand, _) ← read []
      return (.negation operand, stack)
  | .atom => do
      let _ ← advance track
      return (.atom token.raw, stack)
  | .connective c => do
      let _ ← advance track
      match stack with
      | [] => throw (.refused (.missingLeft token))
      | left :: below => do
          let right ← chain track read rounds c
          return (.binary c left right, below)
  | .opening => do
      let inner ← group track read rounds
      return (inner, stack)
  | .closing => throw (.refused (.unexpected token))
  | .finish => throw (.refused (.unexpected token))

/-- Reads one expression. The depth is looked at before the token. -/
def expression : Nat → Reader
  | 0, _ => unending
  | rounds + 1, stack => calling .expression <| deeper do
      let token ← current track
      let here ← get
      if nestingLimit < here.depth then throw (.refused (.tooDeep (some token)))
      else beginning track (expression rounds) rounds token stack

def parse (rounds : Nat) : Passage Formula := do
  let stack ← collect track (expression track rounds) (· = .finish) rounds []
  match stack with
  | [] => do
      let token ← current track
      throw (.refused (.emptyInput token))
  | [formula] => return formula
  | stack =>
      match stack.reverse.mapM Formula.text with
      | .ok texts => throw (.refused (.several texts))
      | .error _ => throw (.refused .tooTall)

end Passages

/-! ## Passages one after the other -/

section Passages

variable {α β : Type} {p q : Passage α} {f g : α → Passage β} {here there : Cursor}

theorem bind_of_ok {value : α} (run : p here = some (.ok value, there)) :
    (p >>= f) here = f value there := by
  change ((p here).bind fun ended => ExceptT.bindCont f ended.1 ended.2) = _
  rw [run]
  rfl

theorem bind_of_error {fault : Fault} (run : p here = some (.error fault, there)) :
    (p >>= f) here = some (.error fault, there) := by
  change ((p here).bind fun ended => ExceptT.bindCont f ended.1 ended.2) = _
  rw [run]
  rfl

theorem bind_of_none (run : p here = none) : (p >>= f) here = none := by
  change ((p here).bind fun ended => ExceptT.bindCont f ended.1 ended.2) = _
  rw [run]
  rfl

theorem calling_of_some {routine : Routine} {outcome : Except Fault α}
    (run : p here = some (outcome, there)) :
    calling routine p here =
      some (outcome, there.noting ⟨routine, here.toPlace, there.toPlace, outcome.isOk⟩) := by
  change ((p here).bind fun ended => some (ended.1, ended.2.noting _)) = _
  rw [run]
  rfl

theorem deeper_of_some {outcome : Except Fault α} (run : p here.entered = some (outcome, there)) :
    deeper p here = some (outcome, there.left) := by
  change ((p here.entered).bind fun ended => some (ended.1, ended.2.left)) = _
  rw [run]
  rfl

theorem bind_pure_of_some {outcome : Except Fault α} (image : α → β)
    (run : p here = some (outcome, there)) :
    (p >>= fun value => pure (image value)) here = some (outcome.map image, there) := by
  cases outcome with
  | ok value => exact bind_of_ok run
  | error fault => exact bind_of_error run

/-- Two sequences of passages agree at a cursor if their first passages do, and the later ones do
wherever the first one ends. -/
theorem bind_congr_at (head : p here = q here)
    (tail : ∀ value there, q here = some (.ok value, there) → f value there = g value there) :
    (p >>= f) here = (q >>= g) here := by
  cases run : q here with
  | none => rw [bind_of_none (head.trans run), bind_of_none run]
  | some ended =>
      obtain ⟨outcome, there⟩ := ended
      cases outcome with
      | ok value => rw [bind_of_ok (head.trans run), bind_of_ok run, tail value there run]
      | error fault => rw [bind_of_error (head.trans run), bind_of_error run]

theorem calling_congr_at {routine : Routine} (same : p here = q here) :
    calling routine p here = calling routine q here := by
  change (p here).bind _ = (q here).bind _
  rw [same]

theorem deeper_congr_at (same : p here.entered = q here.entered) :
    deeper p here = deeper q here := by
  change (p here.entered).bind _ = (q here.entered).bind _
  rw [same]

end Passages

/-! ## More rounds -/

/-- Wherever the first passage has an outcome, the second one has the same. -/
def Extends {α : Type} (p q : Passage α) : Prop :=
  ∀ here ended, p here = some ended → q here = some ended

section Rounds

variable {α β : Type} {p q : Passage α} {f g : α → Passage β}

theorem Extends.refl (p : Passage α) : Extends p p :=
  fun _ _ => id

theorem extends_unending : Extends unending p := by
  intro here ended run
  cases run

theorem Extends.bind (head : Extends p q) (tail : ∀ value, Extends (f value) (g value)) :
    Extends (p >>= f) (q >>= g) := by
  intro here ended run
  cases first : p here with
  | none =>
      rw [bind_of_none first] at run
      cases run
  | some middle =>
      obtain ⟨outcome, there⟩ := middle
      cases outcome with
      | ok value =>
          rw [bind_of_ok first] at run
          rw [bind_of_ok (head _ _ first)]
          exact tail value there ended run
      | error fault =>
          rw [bind_of_error first] at run
          rw [bind_of_error (head _ _ first)]
          exact run

theorem Extends.calling {routine : Routine} (body : Extends p q) :
    Extends (calling routine p) (calling routine q) := by
  intro here ended run
  cases first : p here with
  | none =>
      change ((p here).bind _) = _ at run
      rw [first] at run
      cases run
  | some middle =>
      rw [calling_of_some first] at run
      rw [calling_of_some (body _ _ first)]
      exact run

theorem Extends.deeper (body : Extends p q) : Extends (deeper p) (deeper q) := by
  intro here ended run
  cases first : p here.entered with
  | none =>
      change ((p here.entered).bind _) = _ at run
      rw [first] at run
      cases run
  | some middle =>
      rw [deeper_of_some first] at run
      rw [deeper_of_some (body _ _ first)]
      exact run

variable {track : List Token} {read more : Reader}
  (extend : ∀ stack, Extends (read stack) (more stack))
include extend

theorem collect_extends (closes : Kind → Bool) (rounds : Nat) (stack : List Formula) :
    Extends (collect track read closes rounds stack)
      (collect track more closes (rounds + 1) stack) := by
  induction rounds generalizing stack with
  | zero => exact extends_unending
  | succ rounds ih =>
      rw [collect, collect]
      refine (Extends.refl _).bind fun token => ?_
      split
      · exact Extends.refl _
      · exact (extend stack).bind fun step => ih _

theorem absorb_extends (c : Connective) (rounds : Nat) (stack : List Formula)
    (operand : Formula) :
    Extends (absorb track read c rounds stack operand)
      (absorb track more c (rounds + 1) stack operand) := by
  induction rounds generalizing stack operand with
  | zero => exact extends_unending
  | succ rounds ih =>
      rw [absorb, absorb]
      refine (Extends.refl _).bind fun token => ?_
      split
      · exact (extend _).bind fun step => ih _ _
      · exact Extends.refl _

theorem chain_extends (rounds : Nat) (c : Connective) :
    Extends (chain track read rounds c) (chain track more (rounds + 1) c) :=
  Extends.calling ((extend _).bind fun _ => absorb_extends extend c rounds _ _)

theorem group_extends (rounds : Nat) :
    Extends (group track read rounds) (group track more (rounds + 1)) := by
  refine Extends.calling ((Extends.refl _).bind fun opening => ?_)
  exact (collect_extends extend _ rounds []).bind fun stack => Extends.refl _

theorem beginning_extends (rounds : Nat) (token : Token) (stack : List Formula) :
    Extends (beginning track read rounds token stack)
      (beginning track more (rounds + 1) token stack) := by
  unfold beginning
  cases token.kind with
  | negation =>
      refine (Extends.refl _).bind fun _ => ?_
      exact (extend []).bind fun operand => Extends.refl _
  | connective c =>
      refine (Extends.refl _).bind fun _ => ?_
      cases stack with
      | nil => exact Extends.refl _
      | cons left below =>
          exact (chain_extends extend rounds c).bind fun right => Extends.refl _
  | opening => exact (group_extends extend rounds).bind fun inner => Extends.refl _
  | _ => exact Extends.refl _

omit extend

theorem expression_extends (rounds : Nat) (stack : List Formula) :
    Extends (expression track rounds stack) (expression track (rounds + 1) stack) := by
  induction rounds generalizing stack with
  | zero => exact extends_unending
  | succ rounds ih =>
      rw [expression, expression]
      refine Extends.calling (Extends.deeper ?_)
      refine (Extends.refl _).bind fun token => (Extends.refl _).bind fun here => ?_
      split
      · exact Extends.refl _
      · exact beginning_extends ih rounds token stack

theorem parse_extends (rounds : Nat) : Extends (parse track rounds) (parse track (rounds + 1)) :=
  (collect_extends (expression_extends rounds) _ rounds []).bind fun _ => Extends.refl _

theorem parse_extends_add (rounds spare : Nat) :
    Extends (parse track rounds) (parse track (rounds + spare)) := by
  induction spare with
  | zero => exact Extends.refl _
  | succ spare ih => exact fun here ended run => parse_extends _ here ended (ih here ended run)

end Rounds

end Cursor

end Propositional
