import Propositional.Formula.Parse
import Propositional.Proofs.Grammar
import Propositional.Proofs.Outcome

/-!
# Surveying a token sequence

A survey passes once over a token sequence and builds nothing. It keeps the groups that are open,
with the number of expressions that each of them holds so far, and it remembers whether an operand
is due. That is enough to say whether the sequence is one expression, and at which token it goes
wrong if it is not.
-/

set_option autoImplicit false

namespace Propositional

/-- What a survey says of a token sequence: that it is a formula, or what is wrong with it. -/
inductive Verdict where
  | formula
  | emptyInput (finish : Token)
  | several (count : Nat)
  | missingLeft (operator : Token)
  | unexpected (token : Token)
  | unterminated (opening : Token)
  | emptyGroup (opening : Token)
  | crowdedGroup (count : Nat) (opening : Token)
  deriving DecidableEq

namespace Verdict

/-- The verdict that an error expresses. A limit that is exceeded expresses none. -/
def ofError : ParseError → Option Verdict
  | .emptyInput finish => some (.emptyInput finish)
  | .several texts => some (.several texts.length)
  | .missingLeft operator => some (.missingLeft operator)
  | .unexpected token => some (.unexpected token)
  | .unterminated opening => some (.unterminated opening)
  | .emptyGroup opening => some (.emptyGroup opening)
  | .crowdedGroup count opening => some (.crowdedGroup count opening)
  | .tooDeep _ => none
  | .tooTall => none
  | .gap => none

theorem ofError_ne_formula (cause : ParseError) : ofError cause ≠ some .formula := by
  cases cause <;> nofun

def ofOutcome : Except ParseError Formula → Option Verdict
  | .ok _ => some .formula
  | .error cause => ofError cause

end Verdict

/-- The top of the input or an open group, with the number of expressions found in it so far and
all that is open around it. -/
inductive Scope where
  | top (count : Nat)
  | group (opening : Token) (count : Nat) (outer : Scope)
  deriving DecidableEq

namespace Scope

def count : Scope → Nat
  | top count => count
  | group _ count _ => count

def holding (count : Nat) : Scope → Scope
  | top _ => top count
  | group opening _ outer => group opening count outer

@[simp] theorem count_holding (count : Nat) (scope : Scope) :
    (scope.holding count).count = count := by
  cases scope <;> rfl

@[simp] theorem holding_holding (later count : Nat) (scope : Scope) :
    (scope.holding count).holding later = scope.holding later := by
  cases scope <;> rfl

@[simp] theorem holding_count (scope : Scope) : scope.holding scope.count = scope := by
  cases scope <;> rfl

end Scope

/-- A place in a survey. An operand is due behind a negation and behind a connective. -/
structure Survey where
  scope : Scope
  due : Bool
  deriving DecidableEq

namespace Survey

def start : Survey :=
  ⟨.top 0, false⟩

def entered (s : Survey) : Scope :=
  if s.due then s.scope else s.scope.holding (s.scope.count + 1)

/-- Leaves the scope at a closing parenthesis. -/
def leave (closing : Token) : Scope → Except Verdict Survey
  | .top _ => .error (.unexpected closing)
  | .group opening 0 _ => .error (.emptyGroup opening)
  | .group _ 1 outer => .ok ⟨outer, false⟩
  | .group opening count _ => .error (.crowdedGroup count opening)

def step (s : Survey) (token : Token) : Except Verdict Survey :=
  match token.kind with
  | .atom => .ok ⟨s.entered, false⟩
  | .negation => .ok ⟨s.entered, true⟩
  | .connective _ =>
      if s.due ∨ s.scope.count = 0 then .error (.missingLeft token) else .ok ⟨s.scope, true⟩
  | .opening => .ok ⟨.group token 0 s.entered, false⟩
  | .closing => if s.due then .error (.unexpected token) else leave token s.scope
  | .finish => .error (.unexpected token)

def run (s : Survey) : List Token → Except Verdict Survey
  | [] => .ok s
  | token :: rest => do
      let next ← s.step token
      next.run rest

def close (finish : Token) (s : Survey) : Verdict :=
  if s.due then .unexpected finish
  else
    match s.scope with
    | .group opening _ _ => .unterminated opening
    | .top 0 => .emptyInput finish
    | .top 1 => .formula
    | .top count => .several count

def verdict (finish : Token) (s : Survey) (tokens : List Token) : Verdict :=
  match s.run tokens with
  | .ok last => last.close finish
  | .error found => found

theorem run_append (s : Survey) (front back : List Token) :
    s.run (front ++ back) = (do
      let next ← s.run front
      next.run back) := by
  induction front generalizing s with
  | nil => rfl
  | cons token rest ih =>
      rw [List.cons_append, run, run, bind_assoc]
      exact bind_congr fun next => ih next

theorem leave_ne_formula (closing : Token) (scope : Scope) :
    leave closing scope ≠ .error .formula := by
  match scope with
  | .top count => nofun
  | .group opening 0 outer => nofun
  | .group opening 1 outer => nofun
  | .group opening (count + 2) outer => nofun

theorem step_ne_formula (s : Survey) (token : Token) : s.step token ≠ .error .formula := by
  unfold step
  split
  · nofun
  · nofun
  · split <;> nofun
  · nofun
  · split
    · nofun
    · exact leave_ne_formula token s.scope
  · nofun

theorem run_ne_formula (s : Survey) (tokens : List Token) : s.run tokens ≠ .error .formula := by
  induction tokens generalizing s with
  | nil => nofun
  | cons token rest ih =>
      rw [run]
      cases passes : s.step token with
      | error found =>
          intro stopped
          rw [Except.error.inj stopped] at passes
          exact step_ne_formula s token passes
      | ok next => exact ih next

section Verdicts

variable {finish token : Token} {s next : Survey} {rest : List Token}

theorem verdict_step (passes : s.step token = .ok next) :
    verdict finish s (token :: rest) = verdict finish next rest := by
  rw [verdict, run, passes]
  rfl

theorem verdict_stop {found : Verdict} (stops : s.step token = .error found) :
    verdict finish s (token :: rest) = found := by
  rw [verdict, run, stops]
  rfl

theorem run_of_formula {tokens : List Token} (isFormula : verdict finish s tokens = .formula) :
    ∃ last, s.run tokens = .ok last := by
  cases run : s.run tokens with
  | ok last => exact ⟨last, rfl⟩
  | error found =>
      rw [verdict, run] at isFormula
      have isError : found = .formula := isFormula
      rw [isError] at run
      exact absurd run (run_ne_formula s tokens)

end Verdicts

end Survey

namespace Token

def verdict (tokens : List Token) : Verdict :=
  Survey.verdict (firstFinish tokens) .start (beforeFinish tokens)

def openings (tokens : List Token) : Nat :=
  tokens.countP fun t => t.kind = .opening

def closings (tokens : List Token) : Nat :=
  tokens.countP fun t => t.kind = .closing

theorem openings_cons (t : Token) (rest : List Token) :
    openings (t :: rest) = openings [t] + openings rest := by
  simp [openings, List.countP_cons, Nat.add_comm]

theorem closings_cons (t : Token) (rest : List Token) :
    closings (t :: rest) = closings [t] + closings rest := by
  simp [closings, List.countP_cons, Nat.add_comm]

/-- No parenthesis closes what was not opened before, and every opened one is closed. -/
def Balanced (tokens : List Token) : Prop :=
  (∀ front, front <+: tokens → closings front ≤ openings front) ∧
    closings tokens = openings tokens

end Token

/-! ## Surveys inside of a group

Inside of a group a survey goes on as it does at the top, up to the parenthesis that closes the
group. -/

namespace Scope

def depth : Scope → Nat
  | top _ => 0
  | group _ _ outer => outer.depth + 1

def inside (scope : Scope) (opening : Token) (outer : Scope) : Scope :=
  match scope with
  | top count => group opening count outer
  | group other count inner => group other count (inner.inside opening outer)

@[simp] theorem count_inside (scope : Scope) (opening : Token) (outer : Scope) :
    (scope.inside opening outer).count = scope.count := by
  cases scope <;> rfl

@[simp] theorem inside_holding (scope : Scope) (opening : Token) (outer : Scope) (count : Nat) :
    (scope.holding count).inside opening outer = (scope.inside opening outer).holding count := by
  cases scope <;> rfl

@[simp] theorem depth_holding (count : Nat) (scope : Scope) :
    (scope.holding count).depth = scope.depth := by
  cases scope <;> rfl

end Scope

namespace Survey

def inside (s : Survey) (opening : Token) (outer : Scope) : Survey :=
  ⟨s.scope.inside opening outer, s.due⟩

section Inside

variable {opening : Token} {outer : Scope} {s next : Survey} {token : Token} {tokens : List Token}

@[simp] theorem scope_inside : (s.inside opening outer).scope = s.scope.inside opening outer := rfl

@[simp] theorem due_inside : (s.inside opening outer).due = s.due := rfl

@[simp] theorem inside_mk (scope : Scope) (due : Bool) :
    Survey.inside ⟨scope, due⟩ opening outer = ⟨scope.inside opening outer, due⟩ := rfl

@[simp] theorem entered_inside :
    (s.inside opening outer).entered = s.entered.inside opening outer := by
  cases due : s.due <;> simp [entered, due]

@[simp] theorem depth_entered : s.entered.depth = s.scope.depth := by
  cases due : s.due <;> simp [entered, due]

theorem step_inside (kept : token.kind = .closing → 0 < s.scope.depth) :
    (s.inside opening outer).step token = (s.step token).map (·.inside opening outer) := by
  cases kind : token.kind with
  | atom => simp [step, kind, Except.map]
  | negation => simp [step, kind, Except.map]
  | connective c =>
      by_cases stops : s.due ∨ s.scope.count = 0
      · simp [step, kind, Except.map, stops]
      · simp [step, kind, Except.map, stops]
  | opening => simp [step, kind, Scope.inside, Except.map]
  | finish => simp [step, kind, Except.map]
  | closing =>
      obtain ⟨scope, due⟩ := s
      cases due with
      | true => simp [step, kind, Except.map]
      | false =>
          match scope with
          | .top count => exact absurd (kept kind) (Nat.lt_irrefl 0)
          | .group other 0 inner => simp [step, kind, Scope.inside, leave, Except.map]
          | .group other 1 inner => simp [step, kind, Scope.inside, leave, Except.map]
          | .group other (count + 2) inner => simp [step, kind, Scope.inside, leave, Except.map]

theorem leave_eq_ok {closing : Token} {scope : Scope} (left : leave closing scope = .ok next) :
    ∃ opening outer, scope = .group opening 1 outer ∧ next = ⟨outer, false⟩ := by
  match scope with
  | .top count => cases left
  | .group opening 0 outer => cases left
  | .group opening 1 outer =>
      cases left
      exact ⟨opening, outer, rfl, rfl⟩
  | .group opening (count + 2) outer => cases left

theorem depth_step (passes : s.step token = .ok next) :
    next.scope.depth + Token.closings [token] = s.scope.depth + Token.openings [token] := by
  cases kind : token.kind with
  | atom =>
      simp only [step, kind, Except.ok.injEq] at passes
      subst passes
      simp [Token.openings, Token.closings, kind]
  | negation =>
      simp only [step, kind, Except.ok.injEq] at passes
      subst passes
      simp [Token.openings, Token.closings, kind]
  | connective c =>
      simp only [step, kind] at passes
      split at passes
      · cases passes
      · cases passes
        simp [Token.openings, Token.closings, kind]
  | opening =>
      simp only [step, kind, Except.ok.injEq] at passes
      subst passes
      simp [Token.openings, Token.closings, Scope.depth, kind]
  | closing =>
      simp only [step, kind] at passes
      split at passes
      · cases passes
      · obtain ⟨opening, outer, scopeEq, rfl⟩ := leave_eq_ok passes
        simp [Token.openings, Token.closings, Scope.depth, kind, scopeEq]
  | finish =>
      simp only [step, kind] at passes
      cases passes

theorem depth_run {last : Survey} (passed : s.run tokens = .ok last) :
    last.scope.depth + Token.closings tokens = s.scope.depth + Token.openings tokens := by
  induction tokens generalizing s with
  | nil =>
      cases passed
      rfl
  | cons token rest ih =>
      obtain ⟨next, passes, later⟩ := bind_eq_ok passed
      have atToken := depth_step passes
      have atRest := ih later
      rw [Token.closings_cons, Token.openings_cons]
      omega

/-- As long as no parenthesis closes the group, its inside is surveyed as if it stood alone. -/
theorem run_inside (kept : ∀ front, front <+: tokens →
      Token.closings front ≤ s.scope.depth + Token.openings front) :
    (s.inside opening outer).run tokens = (s.run tokens).map (·.inside opening outer) := by
  induction tokens generalizing s with
  | nil => rfl
  | cons token rest ih =>
      have atToken : token.kind = .closing → 0 < s.scope.depth := by
        intro kind
        have bound := kept [token] (by simp)
        simp [Token.openings, Token.closings, kind] at bound
        omega
      rw [run, run, step_inside atToken]
      cases passes : s.step token with
      | error found => rfl
      | ok next =>
          refine ih fun front isPrefix => ?_
          have depth := depth_step passes
          have bound := kept (token :: front) (List.cons_prefix_cons.mpr ⟨rfl, isPrefix⟩)
          rw [Token.closings_cons, Token.openings_cons] at bound
          omega

theorem verdict_of_group {closing finish : Token} (closes : closing.kind = .closing)
    (balanced : Token.Balanced tokens)
    (passed : Survey.run ⟨.group opening 0 outer, false⟩ (tokens ++ [closing]) = .ok next) :
    Survey.verdict finish .start tokens = .formula := by
  have kept : ∀ front, front <+: tokens →
      Token.closings front ≤ start.scope.depth + Token.openings front := by
    intro front isPrefix
    have bound := balanced.1 front isPrefix
    omega
  have inside : Survey.run ⟨.group opening 0 outer, false⟩ tokens =
      (start.run tokens).map (·.inside opening outer) := run_inside kept
  rw [run_append, inside] at passed
  obtain ⟨last, reached, closed⟩ := bind_eq_ok passed
  cases alone : start.run tokens with
  | error found =>
      rw [alone] at reached
      cases reached
  | ok final =>
      rw [alone] at reached
      cases reached
      have atTop : final.scope.depth = 0 := by
        have depth := depth_run alone
        rw [balanced.2] at depth
        exact Nat.add_right_cancel depth
      obtain ⟨scope, due⟩ := final
      cases scope with
      | group other count inner => cases atTop
      | top count =>
          obtain ⟨after, passes, _⟩ := bind_eq_ok closed
          cases due with
          | true => simp [step, closes] at passes
          | false =>
              have left : leave closing (.group opening count outer) = .ok after := by
                simpa [step, closes, Scope.inside] using passes
              obtain ⟨_, _, scopeEq, _⟩ := leave_eq_ok left
              cases scopeEq
              rw [verdict, alone]
              rfl

theorem closings_eq_openings {finish : Token}
    (isFormula : verdict finish .start tokens = .formula) :
    Token.closings tokens = Token.openings tokens := by
  obtain ⟨last, passed⟩ := run_of_formula isFormula
  have depth := depth_run passed
  rw [verdict, passed] at isFormula
  obtain ⟨scope, due⟩ := last
  cases scope with
  | top count => exact Nat.add_left_cancel depth
  | group other count inner => cases due <;> cases isFormula

theorem not_formula_of_open_group {finish other : Token} (opens : opening.kind = .opening)
    {front content : List Token} (inner : verdict other .start content = .formula) :
    verdict finish .start (front ++ opening :: content) ≠ .formula := by
  intro isFormula
  have whole := closings_eq_openings isFormula
  have balanced := closings_eq_openings inner
  have ahead : Token.closings front ≤ Token.openings front := by
    obtain ⟨last, passed⟩ := run_of_formula isFormula
    rw [run_append] at passed
    obtain ⟨next, reached, _⟩ := bind_eq_ok passed
    have depth : next.scope.depth + Token.closings front = 0 + Token.openings front :=
      depth_run reached
    omega
  simp only [Token.closings, Token.openings, List.countP_append, List.countP_cons] at *
  simp [opens] at whole
  omega

end Inside

end Survey

end Propositional
