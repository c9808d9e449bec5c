import Propositional.Proofs.Reading.Acceptance
import Propositional.Proofs.Survey

/-!
# Reading and the survey of a token sequence

`ofTokens_verdict`: unless a limit on depth stops it, reading a token sequence ends with the verdict
of its survey, a formula or the same complaint about the same token. The invariant is `Foretold`.
While an expression is read, the survey stays in the scope that the expression stands in, and where
a group or the input is collected, the working stack is as long as the scope has expressions.
-/

set_option autoImplicit false

namespace Propositional

open Formula

def ParseError.OfDepth : ParseError → Prop
  | .tooDeep _ => True
  | .tooTall => True
  | _ => False

theorem ParseError.message_of_depth {cause : ParseError} (deep : cause.OfDepth) :
    cause.message = "Formula is nested too deeply" := by
  cases cause with
  | tooDeep token => rfl
  | tooTall => rfl
  | _ => exact absurd deep id

/-! ## Outcomes that a verdict foretells -/

/-- The outcome is a value with the property, or the error of the verdict, or a refusal for
depth. -/
def Foretells {α : Type} (verdict : Verdict) (outcome : Except ParseError α)
    (Result : α → Prop) : Prop :=
  match outcome with
  | .ok value => Result value
  | .error cause => cause.OfDepth ∨ Verdict.ofError cause = some verdict

theorem Foretells.bind {α β : Type} {verdict : Verdict} {outcome : Except ParseError α}
    {next : α → Except ParseError β} {Before : α → Prop} {After : β → Prop}
    (head : Foretells verdict outcome Before)
    (tail : ∀ value, Before value → Foretells verdict (next value) After) :
    Foretells verdict (outcome >>= next) After := by
  cases outcome with
  | ok value => exact tail value head
  | error cause => exact head

theorem Foretells.imp {α : Type} {verdict : Verdict} {outcome : Except ParseError α}
    {Before After : α → Prop} (head : Foretells verdict outcome Before)
    (all : ∀ value, Before value → After value) : Foretells verdict outcome After := by
  cases outcome with
  | ok value => exact all value head
  | error cause => exact head

theorem Foretells.stopped {α : Type} {finish token : Token} {s : Survey} {rest : List Token}
    {found : Verdict} {cause : ParseError} {Result : α → Prop} (stops : s.step token = .error found)
    (expressed : Verdict.ofError cause = some found) :
    Foretells (s.verdict finish (token :: rest)) (.error cause) Result := by
  rw [Survey.verdict_stop stops]
  exact .inr expressed

namespace Scope

def closes : Scope → Kind → Bool
  | top _ => fun _ => false
  | group _ _ _ => (· = .closing)

@[simp] theorem closes_holding (count : Nat) (scope : Scope) :
    (scope.holding count).closes = scope.closes := by
  cases scope <;> rfl

end Scope

/-- The survey can go from one place to the other: its verdict does not change. -/
def Survey.Passes (finish : Token) (s : Survey) (tokens : List Token) (next : Survey)
    (rest : List Token) : Prop :=
  s.verdict finish tokens = next.verdict finish rest

/-- The reader ends as the survey foretells: where an operand is due, at a connective that has a
left operand, and where the expressions of a scope are collected. -/
structure Foretold (finish : Token) (read : Reader) : Prop where
  due : ∀ (scope : Scope) (tokens : List Token), 0 < scope.count →
    Foretells (Survey.verdict finish ⟨scope, true⟩ tokens) (read [] tokens) fun x =>
      x.stack = [] ∧ Survey.Passes finish ⟨scope, true⟩ tokens ⟨scope, false⟩ x.rest
  operator : ∀ (scope : Scope) (left : Formula) (below : List Formula) (token : Token)
      (rest : List Token) (c : Connective), token.kind = .connective c → 0 < scope.count →
    Foretells (Survey.verdict finish ⟨scope, false⟩ (token :: rest))
      (read (left :: below) (token :: rest)) fun x =>
        x.stack = below ∧ Survey.Passes finish ⟨scope, false⟩ (token :: rest) ⟨scope, false⟩ x.rest
  collected : ∀ (scope : Scope) (stack : List Formula) (tokens : List Token),
    stack.length = scope.count → ¬ Halts scope.closes tokens →
      Foretells (Survey.verdict finish ⟨scope, false⟩ tokens) (read stack tokens) fun x =>
        Survey.Passes finish ⟨scope, false⟩ tokens
          ⟨scope.holding (x.stack.length + 1), false⟩ x.rest

section Loops

variable {read : Reader} {input : TokenInput} {finish : Token} {c : Connective}

theorem absorb_foretold (hasEnd : input.finish? = some finish) (foretold : Foretold finish read)
    (scope : Scope) (counted : 0 < scope.count) (stack : List Formula) (operand : Formula)
    (tokens : List Token) :
    Foretells (Survey.verdict finish ⟨scope, false⟩ tokens)
      (absorb read input c stack operand tokens) fun last =>
        Survey.Passes finish ⟨scope, false⟩ tokens ⟨scope, false⟩ last.rest := by
  fun_induction absorb read input c stack operand tokens with
  | case1 stack operand =>
      rw [checkEnd_ok hasEnd]
      exact Eq.refl _
  | case2 stack operand token rest same ih =>
      refine (foretold.operator scope operand stack token rest c same counted).bind ?_
      intro step reached
      obtain ⟨_, passed⟩ := reached
      rw [passed]
      refine (ih step).bind fun last later => ?_
      exact passed.trans later
  | case3 stack operand token rest other => exact Eq.refl _

theorem chain_foretold (hasEnd : input.finish? = some finish) (foretold : Foretold finish read)
    (scope : Scope) (counted : 0 < scope.count) (tokens : List Token) :
    Foretells (Survey.verdict finish ⟨scope, true⟩ tokens) (chain read input c tokens) fun last =>
      Survey.Passes finish ⟨scope, true⟩ tokens ⟨scope, false⟩ last.rest := by
  refine (foretold.due scope tokens counted).bind fun first reached => ?_
  obtain ⟨_, passed⟩ := reached
  rw [passed]
  refine (absorb_foretold hasEnd foretold scope counted _ _ _).bind fun last later => ?_
  exact passed.trans later

theorem collect_foretold (hasEnd : input.finish? = some finish) (foretold : Foretold finish read)
    (scope : Scope) (stack : List Formula) (tokens : List Token) :
    Foretells (Survey.verdict finish ⟨scope.holding stack.length, false⟩ tokens)
      (collect read input scope.closes stack tokens) fun all =>
        Halts scope.closes all.rest ∧
          Survey.Passes finish ⟨scope.holding stack.length, false⟩ tokens
            ⟨scope.holding all.stack.length, false⟩ all.rest := by
  fun_induction collect read input scope.closes stack tokens with
  | case1 stack =>
      rw [checkEnd_ok hasEnd]
      exact ⟨trivial, rfl⟩
  | case2 stack token rest closing => exact ⟨closing, rfl⟩
  | case3 stack token rest noClosing ih =>
      have goesOn : ¬ Halts (scope.holding stack.length).closes (token :: rest) := by
        rw [Scope.closes_holding]
        exact noClosing
      have counted : stack.length = (scope.holding stack.length).count := by simp
      refine (foretold.collected _ stack (token :: rest) counted goesOn).bind fun step passed => ?_
      rw [Scope.holding_holding] at passed
      rw [passed]
      refine (ih step).bind fun all reached => ?_
      exact ⟨reached.1, passed.trans reached.2⟩

theorem group_foretold (hasEnd : input.finish? = some finish) (foretold : Foretold finish read)
    (opening : Token) (outer : Scope) (tokens : List Token) :
    Foretells (Survey.verdict finish ⟨.group opening 0 outer, false⟩ tokens)
      (group read input opening tokens) fun inner =>
        Survey.Passes finish ⟨.group opening 0 outer, false⟩ tokens ⟨outer, false⟩ inner.rest := by
  have inside := collect_foretold hasEnd foretold (.group opening 0 outer) [] tokens
  change Foretells (Survey.verdict finish ⟨.group opening 0 outer, false⟩ tokens) _ _ at inside
  refine inside.bind fun all reached => ?_
  obtain ⟨stack, rest, noLonger⟩ := all
  obtain ⟨halts, passed⟩ := reached
  change Survey.verdict finish ⟨.group opening 0 outer, false⟩ tokens =
    Survey.verdict finish ⟨.group opening stack.length outer, false⟩ rest at passed
  rw [passed]
  cases rest with
  | nil => exact .inr rfl
  | cons closing rest =>
      have isClosing : closing.kind = .closing := of_decide_eq_true halts
      have left : Survey.step ⟨.group opening stack.length outer, false⟩ closing =
          Survey.leave closing (.group opening stack.length outer) := by
        simp [Survey.step, isClosing]
      rcases stack with _ | ⟨first, _ | ⟨second, others⟩⟩
      · exact Foretells.stopped left rfl
      · exact passed.trans (Survey.verdict_step left)
      · exact Foretells.stopped left rfl

end Loops

section Expressions

variable {input : TokenInput} {finish : Token}

theorem foretells_without_allowance (verdict : Verdict) (stack : List Formula)
    (tokens : List Token) (Result : Expression tokens.length → Prop) :
    Foretells verdict (expression input 0 stack tokens) Result :=
  .inl trivial

def Kind.Begins : Kind → Prop
  | .atom => True
  | .negation => True
  | .opening => True
  | _ => False

theorem operand_foretold (hasEnd : input.finish? = some finish) (allowance : Nat)
    (foretold : Foretold finish (expression input allowance)) (s : Survey)
    (counted : 0 < s.entered.count) (stack : List Formula) (token : Token) (rest : List Token)
    (begins : token.kind.Begins) :
    Foretells (s.verdict finish (token :: rest))
      (expression input (allowance + 1) stack (token :: rest)) fun x =>
        x.stack = stack ∧ s.Passes finish (token :: rest) ⟨s.entered, false⟩ x.rest := by
  cases kind : token.kind with
  | atom =>
      have passes : s.step token = .ok ⟨s.entered, false⟩ := by simp [Survey.step, kind]
      rw [expression, kind]
      exact ⟨rfl, Survey.verdict_step passes⟩
  | negation =>
      have passes : s.step token = .ok ⟨s.entered, true⟩ := by simp [Survey.step, kind]
      rw [expression, kind, Survey.verdict_step passes]
      refine (foretold.due s.entered rest counted).bind fun operand reached => ?_
      exact ⟨rfl, (Survey.verdict_step passes).trans reached.2⟩
  | opening =>
      have passes : s.step token = .ok ⟨.group token 0 s.entered, false⟩ := by
        simp [Survey.step, kind]
      rw [expression, kind, Survey.verdict_step passes]
      refine (group_foretold hasEnd foretold token s.entered rest).bind fun inner passed => ?_
      exact ⟨rfl, (Survey.verdict_step passes).trans passed⟩
  | connective c => rw [kind] at begins; exact absurd begins id
  | closing => rw [kind] at begins; exact absurd begins id
  | finish => rw [kind] at begins; exact absurd begins id

theorem operator_foretold (hasEnd : input.finish? = some finish) (allowance : Nat)
    (foretold : Foretold finish (expression input allowance)) (scope : Scope)
    (counted : 0 < scope.count) (left : Formula) (below : List Formula) (token : Token)
    (rest : List Token) (c : Connective) (kind : token.kind = .connective c) :
    Foretells (Survey.verdict finish ⟨scope, false⟩ (token :: rest))
      (expression input (allowance + 1) (left :: below) (token :: rest)) fun x =>
        x.stack = below ∧
          Survey.Passes finish ⟨scope, false⟩ (token :: rest) ⟨scope, false⟩ x.rest := by
  have passes : Survey.step ⟨scope, false⟩ token = .ok ⟨scope, true⟩ := by
    simp [Survey.step, kind, Nat.ne_of_gt counted]
  rw [expression, kind, Survey.verdict_step passes]
  refine (chain_foretold hasEnd foretold scope counted rest).bind fun right passed => ?_
  exact ⟨rfl, (Survey.verdict_step passes).trans passed⟩

theorem due_foretold (hasEnd : input.finish? = some finish) (allowance : Nat)
    (foretold : Foretold finish (expression input allowance)) (scope : Scope)
    (counted : 0 < scope.count) (tokens : List Token) :
    Foretells (Survey.verdict finish ⟨scope, true⟩ tokens)
      (expression input (allowance + 1) [] tokens) fun x =>
        x.stack = [] ∧ Survey.Passes finish ⟨scope, true⟩ tokens ⟨scope, false⟩ x.rest := by
  cases tokens with
  | nil =>
      rw [expression, hasEnd]
      exact .inr rfl
  | cons token rest =>
      by_cases begins : token.kind.Begins
      · exact operand_foretold hasEnd allowance foretold ⟨scope, true⟩ counted [] token rest begins
      · cases kind : token.kind with
        | connective c =>
            have stops : Survey.step ⟨scope, true⟩ token = .error (.missingLeft token) := by
              simp [Survey.step, kind]
            rw [expression, kind]
            exact Foretells.stopped stops rfl
        | closing =>
            have stops : Survey.step ⟨scope, true⟩ token = .error (.unexpected token) := by
              simp [Survey.step, kind]
            rw [expression, kind]
            exact Foretells.stopped stops rfl
        | finish =>
            have stops : Survey.step ⟨scope, true⟩ token = .error (.unexpected token) := by
              simp [Survey.step, kind]
            rw [expression, kind]
            exact Foretells.stopped stops rfl
        | _ => exact absurd (by rw [kind]; trivial) begins

theorem collected_foretold (hasEnd : input.finish? = some finish) (allowance : Nat)
    (foretold : Foretold finish (expression input allowance)) (scope : Scope)
    (stack : List Formula) (tokens : List Token) (counted : stack.length = scope.count)
    (goesOn : ¬ Halts scope.closes tokens) :
    Foretells (Survey.verdict finish ⟨scope, false⟩ tokens)
      (expression input (allowance + 1) stack tokens) fun x =>
        Survey.Passes finish ⟨scope, false⟩ tokens
          ⟨scope.holding (x.stack.length + 1), false⟩ x.rest := by
  cases tokens with
  | nil => exact absurd trivial goesOn
  | cons token rest =>
      by_cases begins : token.kind.Begins
      · have entered : Survey.entered ⟨scope, false⟩ = scope.holding (stack.length + 1) := by
          simp [Survey.entered, counted]
        have operand := operand_foretold hasEnd allowance foretold ⟨scope, false⟩
          (by simp [entered]) stack token rest begins
        refine operand.imp fun x reached => ?_
        rw [reached.1, ← entered]
        exact reached.2
      · cases kind : token.kind with
        | connective c =>
            cases stack with
            | nil =>
                have stops : Survey.step ⟨scope, false⟩ token = .error (.missingLeft token) := by
                  simp [Survey.step, kind, ← counted]
                rw [expression, kind]
                exact Foretells.stopped stops rfl
            | cons left below =>
                have positive : 0 < scope.count := by
                  rw [← counted]
                  exact Nat.succ_pos _
                have operator := operator_foretold hasEnd allowance foretold scope positive left
                  below token rest c kind
                refine operator.imp fun x reached => ?_
                have same : scope.holding (below.length + 1) = scope := by
                  rw [← List.length_cons, counted, Scope.holding_count]
                rw [reached.1, same]
                exact reached.2
        | closing =>
            have stops : Survey.step ⟨scope, false⟩ token = .error (.unexpected token) := by
              cases scope with
              | top count => simp [Survey.step, Survey.leave, kind]
              | group opening count outer => exact absurd (decide_eq_true kind) goesOn
            rw [expression, kind]
            exact Foretells.stopped stops rfl
        | finish =>
            have stops : Survey.step ⟨scope, false⟩ token = .error (.unexpected token) := by
              simp [Survey.step, kind]
            rw [expression, kind]
            exact Foretells.stopped stops rfl
        | _ => exact absurd (by rw [kind]; trivial) begins

theorem expression_foretold (hasEnd : input.finish? = some finish) (allowance : Nat) :
    Foretold finish (expression input allowance) := by
  -- every reader that an expression calls has one less to spend
  induction allowance with
  | zero =>
      constructor
      · intro scope tokens counted
        exact foretells_without_allowance _ _ _ _
      · intro scope left below token rest c kind counted
        exact foretells_without_allowance _ _ _ _
      · intro scope stack tokens counted goesOn
        exact foretells_without_allowance _ _ _ _
  | succ allowance ih =>
      constructor
      · intro scope tokens counted
        exact due_foretold hasEnd allowance ih scope counted tokens
      · intro scope left below token rest c kind counted
        exact operator_foretold hasEnd allowance ih scope counted left below token rest c kind
      · intro scope stack tokens counted goesOn
        exact collected_foretold hasEnd allowance ih scope stack tokens counted goesOn

/-! ## Whole inputs -/

theorem single_foretold (hasEnd : input.finish? = some finish) (stack : List Formula) :
    Foretells (Survey.close finish ⟨.top stack.length, false⟩) (single input stack) fun _ =>
      Survey.close finish ⟨.top stack.length, false⟩ = .formula := by
  rcases stack with _ | ⟨first, _ | ⟨second, others⟩⟩
  · rw [single, hasEnd]
    exact .inr rfl
  · exact Eq.refl _
  · cases printed : (first :: second :: others).reverse.mapM text with
    | ok texts =>
        have size := length_of_mapM printed
        simp only [single, printed]
        refine .inr ?_
        simp [Verdict.ofError, Survey.close, size]
    | error cause =>
        simp only [single, printed]
        exact .inl trivial

theorem ofInput_foretold (hasEnd : input.finish? = some finish) :
    Foretells (Survey.verdict finish .start input.tokens) (ofInput input) fun _ =>
      Survey.verdict finish .start input.tokens = .formula := by
  have all := collect_foretold hasEnd (expression_foretold hasEnd nestingLimit) (.top 0) []
    input.tokens
  change Foretells (Survey.verdict finish .start input.tokens) _ _ at all
  refine all.bind fun collected reached => ?_
  obtain ⟨stack, rest, noLonger⟩ := collected
  obtain ⟨halts, passed⟩ := reached
  change Survey.verdict finish .start input.tokens =
    Survey.verdict finish ⟨.top stack.length, false⟩ rest at passed
  rw [passed]
  cases rest with
  | nil => exact single_foretold hasEnd stack
  | cons token rest => cases halts

end Expressions

theorem ofTokens_foretold (tokens : List Token) :
    Foretells (Token.verdict tokens) (Formula.ofTokens (tokens.map some)) fun _ =>
      Token.verdict tokens = .formula := by
  have hasEnd : (TokenInput.ofSequence tokens).finish? = some (Token.firstFinish tokens) := rfl
  rw [Formula.ofTokens_map_some]
  refine (ofInput_foretold hasEnd).bind fun formula isFormula => ?_
  split
  · exact isFormula
  · exact .inl trivial

theorem verdict_of_ok {tokens : List Token} {formula : Formula}
    (accepted : Formula.ofTokens (tokens.map some) = .ok formula) :
    Token.verdict tokens = .formula := by
  have read := ofTokens_foretold tokens
  rwa [accepted] at read

theorem verdict_of_error {tokens : List Token} {cause : ParseError}
    (refused : Formula.ofTokens (tokens.map some) = .error cause)
    (shallow : cause.message ≠ "Formula is nested too deeply") :
    Verdict.ofError cause = some (Token.verdict tokens) := by
  have read := ofTokens_foretold tokens
  rw [refused] at read
  rcases read with deep | expressed
  · exact absurd (ParseError.message_of_depth deep) shallow
  · exact expressed

/-- A token sequence without gaps is refused as nested too deeply, or reading it ends with the
verdict of a survey. -/
theorem ofTokens_verdict (tokens : List Token) :
    (∃ cause, Formula.ofTokens (tokens.map some) = .error cause ∧
      cause.message = "Formula is nested too deeply") ∨
    Verdict.ofOutcome (Formula.ofTokens (tokens.map some)) = some (Token.verdict tokens) := by
  cases outcome : Formula.ofTokens (tokens.map some) with
  | ok formula => exact .inr (congrArg some (verdict_of_ok outcome).symm)
  | error cause =>
      by_cases deep : cause.message = "Formula is nested too deeply"
      · exact .inl ⟨cause, rfl, deep⟩
      · exact .inr (verdict_of_error outcome deep)

end Propositional
