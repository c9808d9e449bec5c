import Propositional.Proofs.Reading.Loops

/-!
# Phrases are read

`reads_input`: reading what the grammar derives has one of two ends, and the need of the derivation
decides which. Up to the allowance the reader returns the formula of the derivation and stands
behind its last token, and beyond it the reader refuses the input as nested too deeply.

The proof follows the derivation. The need of a whole is the maximum over its parts, taken in the
order in which they are read, because a part that needs too much ends the reading at once.
-/

set_option autoImplicit false

namespace Propositional

namespace Formula

/-! ## Outcomes that a cost decides -/

/-- The outcome is a value with the property if the allowance covers the cost, and a refusal for
depth if not. -/
structure Costs {α : Type} (cost allowance : Nat) (outcome : Except ParseError α)
    (Result : α → Prop) : Prop where
  within : cost ≤ allowance → ∃ value, outcome = .ok value ∧ Result value
  beyond : allowance < cost → ∃ token, outcome = .error (.tooDeep token)

namespace Costs

variable {α β : Type} {cost later allowance : Nat} {outcome : Except ParseError α}
  {Before : α → Prop} {After : β → Prop}

theorem free {value : α} {Result : α → Prop} (result : Result value) :
    Costs 0 allowance (.ok value) Result :=
  ⟨fun _ => ⟨value, rfl, result⟩, fun beyond => absurd beyond (Nat.not_lt_zero _)⟩

theorem bind {next : α → Except ParseError β} (head : Costs cost allowance outcome Before)
    (tail : ∀ value, Before value → Costs later allowance (next value) After) :
    Costs (max cost later) allowance (outcome >>= next) After := by
  constructor
  · intro covered
    obtain ⟨value, reached, before⟩ := head.within (by omega)
    rw [reached]
    exact (tail value before).within (by omega)
  · intro exceeded
    by_cases covered : cost ≤ allowance
    · obtain ⟨value, reached, before⟩ := head.within covered
      rw [reached]
      exact (tail value before).beyond (by omega)
    · obtain ⟨token, refused⟩ := head.beyond (by omega)
      rw [refused]
      exact ⟨token, rfl⟩

theorem andThen {next : α → Except ParseError β} (head : Costs cost allowance outcome Before)
    (tail : ∀ value, Before value → ∃ result, next value = .ok result ∧ After result) :
    Costs cost allowance (outcome >>= next) After := by
  have both : Costs (max cost 0) allowance (outcome >>= next) After := by
    refine head.bind fun value before => ?_
    obtain ⟨result, returned, after⟩ := tail value before
    rw [returned]
    exact free after
  rwa [Nat.max_zero] at both

theorem enclosed (inner : Costs cost allowance outcome Before) :
    Costs (1 + cost) (allowance + 1) outcome Before :=
  ⟨fun covered => inner.within (by omega), fun exceeded => inner.beyond (by omega)⟩

end Costs

theorem costs_without_allowance {cost : Nat} (positive : 0 < cost) (input : TokenInput)
    (stack : List Formula) (tokens : List Token) (Result : Expression tokens.length → Prop) :
    Costs cost 0 (expression input 0 stack tokens) Result :=
  ⟨fun covered => absurd covered (by omega), fun _ => ⟨_, rfl⟩⟩

/-! ## Results at a given place -/

def Operand.Reaches {bound : Nat} (formula : Formula) (rest : List Token) (x : Operand bound) :
    Prop :=
  x.formula = formula ∧ x.rest = rest

/-- A formula was read up to a given rest and leaves a given working stack. -/
def Expression.Reaches {bound : Nat} (formula : Formula) (rest : List Token)
    (stack : List Formula) (x : Expression bound) : Prop :=
  x.formula = formula ∧ x.rest = rest ∧ x.stack = stack

def Collection.Reaches {bound : Nat} (stack : List Formula) (rest : List Token)
    (x : Collection bound) : Prop :=
  x.stack = stack ∧ x.rest = rest

theorem Expression.Reaches.eq {bound : Nat} {formula : Formula} {rest : List Token}
    {stack : List Formula} {x : Expression bound} (reached : x.Reaches formula rest stack) :
    ∃ shorter, x = ⟨⟨formula, rest, shorter⟩, stack⟩ := by
  obtain ⟨⟨read, after, shorter⟩, below⟩ := x
  obtain ⟨formulaEq, restEq, stackEq⟩ := reached
  cases formulaEq
  cases restEq
  cases stackEq
  exact ⟨shorter, rfl⟩

end Formula

open Formula

/-- The primary is read as its derivation says, wherever it stands. -/
def Primary.Reads (input : TokenInput) (p : Primary) : Prop :=
  ∀ (allowance : Nat) (stack : List Formula) (tokens rest : List Token),
    tokens.map Token.word = p.words →
      Costs p.need allowance (expression input allowance stack (tokens ++ rest))
        (Expression.Reaches p.tree rest stack)

section Readers

variable {input : TokenInput} {finish : Token} {c : Connective}

/-! ## Runs -/

theorem reads_operator {cost : Nat} {tokens rest : List Token} {operand : Formula}
    (right : ∀ allowance, Costs cost allowance (chain (expression input allowance) input c tokens)
      (Operand.Reaches operand rest))
    (operator : Token) (same : operator.kind = .connective c) (allowance : Nat) (left : Formula)
    (below : List Formula) :
    Costs (1 + cost) allowance (expression input allowance (left :: below) (operator :: tokens))
      (Expression.Reaches (.binary c left operand) rest below) := by
  cases allowance with
  | zero => exact costs_without_allowance (by omega) input _ _ _
  | succ allowance =>
      rw [expression, same]
      refine ((right allowance).andThen fun last reached => ?_).enclosed
      obtain ⟨formulaEq, restEq⟩ := reached
      exact ⟨_, rfl, congrArg _ formulaEq, restEq, rfl⟩

theorem reads_operand (hasEnd : input.finish? = some finish) (first : Primary)
    (others : List Primary) (each : ∀ p ∈ first :: others, p.Reads input) (tokens rest : List Token)
    (spelt : tokens.map Token.word =
      first.words ++ (others.map fun p => (c, p)).flatMap stepWords)
    (stops : ¬ Token.Ahead (.connective c) rest) (allowance : Nat) :
    Costs (max first.need (Run.needFrom 0 (others.map Primary.need))) allowance
      (chain (expression input allowance) input c (tokens ++ rest))
      (Operand.Reaches (Formula.nest c first.tree (others.map Primary.tree)) rest) := by
  -- the operator in front of an item reads all that follows it in the run, so the readings are
  -- nested as the formula is
  induction others generalizing first tokens allowance with
  | nil =>
      have firstReads := each first (List.mem_singleton_self first) allowance [] tokens rest
        (by simpa using spelt)
      rw [chain_eq hasEnd, List.map_nil, Run.needFrom, Nat.max_zero]
      refine firstReads.andThen fun x reached => ?_
      obtain ⟨shorter, rfl⟩ := reached.eq
      rw [if_neg stops]
      exact ⟨_, rfl, rfl, rfl⟩
  | cons next others ih =>
      obtain ⟨front, back, rfl, frontSpelt, backSpelt⟩ := List.map_eq_append_iff.mp spelt
      obtain ⟨operator, more, rfl, operatorWord, moreSpelt⟩ := List.map_eq_cons_iff.mp backSpelt
      have same : operator.kind = .connective c := Token.word_eq_connective.mp operatorWord
      have firstReads := each first (List.mem_cons_self ..) allowance [] front
        (operator :: more ++ rest) frontSpelt
      have operatorReads := reads_operator
        (ih next (fun p member => each p (List.mem_cons_of_mem _ member)) more moreSpelt)
        operator same allowance first.tree []
      rw [chain_eq hasEnd, List.append_assoc, List.map_cons, Run.needFrom_cons]
      refine firstReads.bind fun x reached => ?_
      obtain ⟨shorter, rfl⟩ := reached.eq
      rw [if_pos (show Token.Ahead (.connective c) (operator :: more ++ rest) from same)]
      refine operatorReads.andThen fun step reached => ?_
      exact ⟨_, rfl, reached.1, reached.2.1⟩

theorem reads_run (hasEnd : input.finish? = some finish) (r : Run Primary)
    (each : ∀ p ∈ r.items, p.Reads input) (tokens rest : List Token)
    (spelt : tokens.map Token.word = r.steps.flatMap stepWords)
    (stops : ¬ Token.Ahead (.connective r.connective) rest) (allowance : Nat) (left : Formula)
    (below : List Formula) :
    Costs (r.map Primary.need).need allowance
      (expression input allowance (left :: below) (tokens ++ rest))
      (Expression.Reaches (.binary r.connective left (r.map Primary.tree).nest) rest below) := by
  obtain ⟨operator, more, rfl, operatorWord, moreSpelt⟩ := List.map_eq_cons_iff.mp spelt
  have need : (r.map Primary.need).need =
      1 + max r.first.need (Run.needFrom 0 (r.others.map Primary.need)) := Run.needFrom_cons _ _
  rw [need]
  exact reads_operator (reads_operand hasEnd r.first r.others each more rest moreSpelt stops)
    operator (Token.word_eq_connective.mp operatorWord) allowance left below

/-! ## Phrases -/

/-- Only a closing parenthesis ends the collection, if anything does. -/
def ClosesGroups (closes : Kind → Bool) : Prop :=
  ∀ kind, closes kind = true → kind = .closing

theorem not_halts {closes : Kind → Bool} (groups : ClosesGroups closes) {token : Token}
    (inside : token.kind ≠ .closing) (rest : List Token) : ¬ Halts closes (token :: rest) :=
  fun halts => inside (groups token.kind halts)

theorem not_ahead_of_halts {closes : Kind → Bool} (groups : ClosesGroups closes)
    {tokens : List Token} (halts : Halts closes tokens) :
    ¬ Token.Ahead (.connective c) tokens := by
  cases tokens with
  | nil => exact id
  | cons token rest =>
      intro ahead
      have same : token.kind = .connective c := ahead
      exact not_halts groups (by rw [same]; nofun) rest halts

theorem not_ahead_of_separate {closes : Kind → Bool} (groups : ClosesGroups closes)
    {r : Run Primary} {runs : List (Run Primary)} (separate : Run.Separate (r :: runs))
    {tokens rest : List Token}
    (spelt : tokens.map Token.word = (runs.flatMap Run.steps).flatMap stepWords)
    (halts : Halts closes rest) : ¬ Token.Ahead (.connective r.connective) (tokens ++ rest) := by
  cases runs with
  | nil =>
      have noTokens : tokens = [] := List.map_eq_nil_iff.mp spelt
      subst noTokens
      exact not_ahead_of_halts groups halts
  | cons next runs =>
      obtain ⟨operator, more, rfl, operatorWord, _⟩ := List.map_eq_cons_iff.mp spelt
      intro ahead
      have same : operator.kind = .connective r.connective := ahead
      have other := (List.isChain_cons_cons.mp separate).1
      rw [Token.word_eq_connective.mp operatorWord] at same
      exact other (Kind.connective.inj same).symm

theorem collects_runs (hasEnd : input.finish? = some finish) {closes : Kind → Bool}
    (groups : ClosesGroups closes) (runs : List (Run Primary)) (separate : Run.Separate runs)
    (each : ∀ r ∈ runs, ∀ p ∈ r.items, p.Reads input) (tokens rest : List Token)
    (spelt : tokens.map Token.word = (runs.flatMap Run.steps).flatMap stepWords)
    (halts : Halts closes rest) (allowance : Nat) (left : Formula) :
    Costs ((runs.map fun r => (r.map Primary.need).need).foldr max 0) allowance
      (collect (expression input allowance) input closes [left] (tokens ++ rest))
      (Collection.Reaches
        [runs.foldl (fun left r => .binary r.connective left (r.map Primary.tree).nest) left]
        rest) := by
  induction runs generalizing tokens left with
  | nil =>
      have noTokens : tokens = [] := List.map_eq_nil_iff.mp spelt
      subst noTokens
      rw [List.nil_append, collect_stop hasEnd closes _ _ halts]
      exact Costs.free ⟨rfl, rfl⟩
  | cons r runs ih =>
      rw [List.flatMap_cons, List.flatMap_append] at spelt
      obtain ⟨front, back, rfl, frontSpelt, backSpelt⟩ := List.map_eq_append_iff.mp spelt
      have stops := not_ahead_of_separate groups separate backSpelt halts
      have runReads := reads_run hasEnd r (each r (List.mem_cons_self ..)) front (back ++ rest)
        frontSpelt stops allowance left []
      have later := ih separate.tail (fun s member => each s (List.mem_cons_of_mem _ member))
        back backSpelt (.binary r.connective left (r.map Primary.tree).nest)
      obtain ⟨operator, more, rfl, operatorWord, _⟩ := List.map_eq_cons_iff.mp frontSpelt
      have goesOn : ¬ Halts closes (operator :: more ++ (back ++ rest)) :=
        not_halts groups (by rw [Token.word_eq_connective.mp operatorWord]; nofun) _
      rw [List.append_assoc, collect_step closes _ _ goesOn, List.map_cons, List.foldr_cons]
      refine runReads.bind fun step reached => ?_
      obtain ⟨shorter, rfl⟩ := reached.eq
      refine later.andThen fun all reached => ?_
      exact ⟨_, rfl, reached.1, reached.2⟩

theorem collects_phrase (hasEnd : input.finish? = some finish) {closes : Kind → Bool}
    (groups : ClosesGroups closes) (e : Phrase Primary) (firstReads : e.first.Reads input)
    (stepsRead : ∀ step ∈ e.steps, step.2.Reads input) (tokens rest : List Token)
    (spelt : e.Derives tokens) (halts : Halts closes rest) (allowance : Nat) :
    Costs e.need allowance
      (collect (expression input allowance) input closes [] (tokens ++ rest))
      (Collection.Reaches [e.tree] rest) := by
  have stepsEq : (e.runs.flatMap Run.steps) = e.steps := Run.flatMap_steps_ofSteps e.steps
  have runsRead : ∀ r ∈ e.runs, ∀ p ∈ r.items, p.Reads input := by
    intro r runMember p itemMember
    refine stepsRead (r.connective, p) ?_
    rw [← stepsEq]
    exact List.mem_flatMap.mpr ⟨r, runMember, List.mem_map_of_mem itemMember⟩
  rw [Phrase.Derives, Phrase.words_eq, ← stepsEq] at spelt
  obtain ⟨front, back, rfl, frontSpelt, backSpelt⟩ := List.map_eq_append_iff.mp spelt
  have first := firstReads allowance [] front (back ++ rest) frontSpelt
  have later := collects_runs hasEnd groups e.runs (Run.separate_ofSteps e.steps) runsRead back
    rest backSpelt halts allowance e.first.tree
  have goesOn : ¬ Halts closes (front ++ (back ++ rest)) := by
    obtain ⟨word, words, wordsEq, inside, _⟩ := e.first.words_head
    obtain ⟨token, more, rfl, tokenWord, _⟩ := List.map_eq_cons_iff.mp (frontSpelt.trans wordsEq)
    refine not_halts groups (fun closing => inside ?_) _
    rw [← tokenWord, Token.word_eq_closing.mpr closing]
  rw [e.need_eq, e.tree_eq, List.append_assoc, collect_step closes _ _ goesOn]
  refine first.bind fun step reached => ?_
  obtain ⟨shorter, rfl⟩ := reached.eq
  refine later.andThen fun all reached => ?_
  exact ⟨_, rfl, reached.1, reached.2⟩

/-! ## Primaries and whole inputs -/

theorem reads_group (hasEnd : input.finish? = some finish) (e : Phrase Primary)
    (firstReads : e.first.Reads input) (stepsRead : ∀ step ∈ e.steps, step.2.Reads input)
    (opening closing : Token) (closes : closing.kind = .closing) (tokens rest : List Token)
    (spelt : e.Derives tokens) (allowance : Nat) :
    Costs e.need allowance
      (group (expression input allowance) input opening (tokens ++ closing :: rest))
      (Operand.Reaches e.tree rest) := by
  have groups : ClosesGroups (· = .closing) := fun kind closing => of_decide_eq_true closing
  have inside := collects_phrase hasEnd groups e firstReads stepsRead tokens (closing :: rest)
    spelt (decide_eq_true closes) allowance
  rw [group]
  refine inside.andThen fun all reached => ?_
  obtain ⟨stack, after, noLonger⟩ := all
  obtain ⟨stackEq, restEq⟩ := reached
  cases stackEq
  cases restEq
  exact ⟨_, rfl, rfl, rfl⟩

theorem reads_primary (hasEnd : input.finish? = some finish) (p : Primary) : p.Reads input := by
  induction p with
  | atom name =>
      intro allowance stack tokens rest spelt
      obtain ⟨token, rfl, tokenWord⟩ := List.map_eq_singleton_iff.mp spelt
      obtain ⟨kind, raw⟩ := Token.word_eq_atom.mp tokenWord
      cases allowance with
      | zero => exact costs_without_allowance Nat.one_pos input _ _ _
      | succ allowance =>
          rw [List.singleton_append, expression, kind]
          exact (Costs.free ⟨congrArg _ raw, rfl, rfl⟩).enclosed
  | negation p ih =>
      intro allowance stack tokens rest spelt
      obtain ⟨token, more, rfl, tokenWord, moreSpelt⟩ := List.map_eq_cons_iff.mp spelt
      cases allowance with
      | zero => exact costs_without_allowance (Primary.need_pos _) input _ _ _
      | succ allowance =>
          rw [List.cons_append, expression, Token.word_eq_negation.mp tokenWord]
          refine ((ih allowance [] more rest moreSpelt).andThen fun operand reached => ?_).enclosed
          obtain ⟨shorter, rfl⟩ := reached.eq
          exact ⟨_, rfl, rfl, rfl, rfl⟩
  | group e firstReads stepsRead =>
      intro allowance stack tokens rest spelt
      rw [Primary.words_group] at spelt
      obtain ⟨opening, more, rfl, openingWord, moreSpelt⟩ := List.map_eq_cons_iff.mp spelt
      obtain ⟨inner, last, rfl, innerSpelt, lastSpelt⟩ := List.map_eq_append_iff.mp moreSpelt
      obtain ⟨closing, rfl, closingWord⟩ := List.map_eq_singleton_iff.mp lastSpelt
      have inside := reads_group hasEnd e firstReads stepsRead opening closing
        (Token.word_eq_closing.mp closingWord) inner rest innerSpelt
      rw [Primary.need_group, Primary.tree_group, List.cons_append, List.append_assoc,
        List.singleton_append]
      cases allowance with
      | zero => exact costs_without_allowance (by omega) input _ _ _
      | succ allowance =>
          rw [expression, Token.word_eq_opening.mp openingWord]
          refine ((inside allowance).andThen fun operand reached => ?_).enclosed
          exact ⟨_, rfl, reached.1, reached.2, rfl⟩

theorem reads_input (hasEnd : input.finish? = some finish) (e : Phrase Primary)
    (derives : e.Derives input.tokens) :
    Costs e.need nestingLimit (ofInput input) (· = e.tree) := by
  have nothingCloses : ClosesGroups fun _ => false := fun kind closing => nomatch closing
  have all := collects_phrase hasEnd nothingCloses e (reads_primary hasEnd e.first)
    (fun step _ => reads_primary hasEnd step.2) input.tokens [] derives trivial nestingLimit
  rw [List.append_nil] at all
  rw [ofInput]
  refine all.andThen fun collected reached => ?_
  rw [reached.1]
  exact ⟨_, rfl, rfl⟩

end Readers

end Propositional
