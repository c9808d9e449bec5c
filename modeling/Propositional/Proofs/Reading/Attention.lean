import Mathlib.Data.List.TakeWhile
import Propositional.Proofs.Reading.Acceptance

/-!
# What the outcome of reading depends on

`ofTokens_of_alike`: two sequences that agree in the kinds of the tokens before the end and in the
names of the atoms among them have the same outcome, one formula, or errors with one message about
tokens at one place. By `expression_agree` the two readings stand at corresponding tokens all the
time.
-/

set_option autoImplicit false

namespace Propositional

open Formula

namespace Token

/-- Two tokens of one kind, and of one name if they are atoms. -/
def Alike (t other : Token) : Prop :=
  t.kind = other.kind ∧ (t.kind = .atom → t.raw = other.raw)

theorem alike_of_word {t other : Token} (same : t.word = other.word) : t.Alike other := by
  cases kind : t.kind <;> cases otherKind : other.kind <;> simp_all [word, Alike]

theorem alike_of_words {tokens others : List Token}
    (same : tokens.map word = others.map word) :
    List.Forall₂ Alike (beforeFinish tokens) (beforeFinish others) := by
  have pairs : List.Forall₂ Eq (tokens.map word) (others.map word) := by
    rw [List.forall₂_eq_eq_eq]
    exact same
  rw [List.forall₂_map_left_iff, List.forall₂_map_right_iff] at pairs
  clear same
  induction pairs with
  | nil => exact .nil
  | @cons t other rest otherRest here later ih =>
      have alike := alike_of_word here
      rw [beforeFinish_cons, beforeFinish_cons, alike.1]
      split
      · exact .nil
      · exact .cons alike ih

def closed (tokens : List Token) : List Token :=
  beforeFinish tokens ++ [firstFinish tokens]

def SamePlace (tokens others : List Token) (t other : Token) : Prop :=
  ∃ place : Nat, (closed tokens)[place]? = some t ∧ (closed others)[place]? = some other

theorem kind_firstFinish (tokens : List Token) : (firstFinish tokens).kind = .finish := by
  induction tokens with
  | nil => rfl
  | cons t rest ih =>
      rw [firstFinish_cons]
      split
      · assumption
      · exact ih

end Token

/-! ## Outcomes of two readings -/

/-- Two errors say the same of tokens that correspond to each other. -/
def ParseError.SaysSame (corresponds : Token → Token → Prop) (cause other : ParseError) : Prop :=
  cause.message = other.message ∧ Option.Rel corresponds cause.token? other.token?

/-- Two outcomes agree: their values are related, or their errors say the same. -/
inductive Agree {α β : Type} (corresponds : Token → Token → Prop) (Related : α → β → Prop) :
    Except ParseError α → Except ParseError β → Prop where
  | ok {value : α} {other : β} (related : Related value other) :
      Agree corresponds Related (.ok value) (.ok other)
  | error {cause other : ParseError} (same : cause.SaysSame corresponds other) :
      Agree corresponds Related (.error cause) (.error other)

theorem Agree.bind {α β γ δ : Type} {corresponds : Token → Token → Prop} {Before : α → β → Prop}
    {After : γ → δ → Prop} {outcome : Except ParseError α} {other : Except ParseError β}
    {next : α → Except ParseError γ} {nextOther : β → Except ParseError δ}
    (head : Agree corresponds Before outcome other)
    (tail : ∀ value image, Before value image → Agree corresponds After (next value)
      (nextOther image)) : Agree corresponds After (outcome >>= next) (other >>= nextOther) := by
  cases head with
  | ok related => exact tail _ _ related
  | error same => exact .error same

theorem Agree.imp {α β : Type} {corresponds weaker : Token → Token → Prop} {Related : α → β → Prop}
    {outcome : Except ParseError α} {other : Except ParseError β}
    (agree : Agree corresponds Related outcome other)
    (implies : ∀ t image, corresponds t image → weaker t image) :
    Agree weaker Related outcome other := by
  cases agree with
  | ok related => exact .ok related
  | @error cause otherCause same =>
      obtain ⟨sameMessage, sameToken⟩ := same
      refine .error ⟨sameMessage, ?_⟩
      generalize cause.token? = token, otherCause.token? = image at sameToken
      cases sameToken with
      | some pair => exact .some (implies _ _ pair)
      | none => exact .none

namespace Formula

section Readers

variable {corresponds : Token → Token → Prop} {input other : TokenInput} {read readOther : Reader}
  {c : Connective}

def EndAlike (corresponds : Token → Token → Prop) (input other : TokenInput) : Prop :=
  ∃ finish otherFinish, input.finish? = some finish ∧ other.finish? = some otherFinish ∧
    corresponds finish otherFinish

def Operand.Alike (corresponds : Token → Token → Prop) {bound otherBound : Nat}
    (x : Operand bound) (y : Operand otherBound) : Prop :=
  x.formula = y.formula ∧ List.Forall₂ corresponds x.rest y.rest

def Expression.Alike (corresponds : Token → Token → Prop) {bound otherBound : Nat}
    (x : Expression bound) (y : Expression otherBound) : Prop :=
  x.formula = y.formula ∧ List.Forall₂ corresponds x.rest y.rest ∧ x.stack = y.stack

def Collection.Alike (corresponds : Token → Token → Prop) {bound otherBound : Nat}
    (x : Collection bound) (y : Collection otherBound) : Prop :=
  x.stack = y.stack ∧ List.Forall₂ corresponds x.rest y.rest

def ReadAlike (corresponds : Token → Token → Prop) (read readOther : Reader) : Prop :=
  ∀ (stack : List Formula) (tokens others : List Token), List.Forall₂ corresponds tokens others →
    Agree corresponds (Expression.Alike corresponds) (read stack tokens) (readOther stack others)

variable (alike : ∀ t image, corresponds t image → t.Alike image)
  (ends : EndAlike corresponds input other) (reads : ReadAlike corresponds read readOther)
include alike ends reads

theorem collect_agree (closes : Kind → Bool) (stack : List Formula) (tokens others : List Token)
    (pairs : List.Forall₂ corresponds tokens others) :
    Agree corresponds (Collection.Alike corresponds) (collect read input closes stack tokens)
      (collect readOther other closes stack others) := by
  obtain ⟨finish, otherFinish, hasEnd, otherHasEnd, _⟩ := ends
  fun_induction collect read input closes stack tokens generalizing others with
  | case1 stack =>
      cases pairs
      rw [checkEnd_ok hasEnd, collect, checkEnd_ok otherHasEnd]
      exact .ok ⟨rfl, .nil⟩
  | case2 stack token rest closing =>
      cases pairs with
      | cons here later =>
          rw [collect, if_pos ((alike _ _ here).1 ▸ closing)]
          exact .ok ⟨rfl, .cons here later⟩
  | case3 stack token rest noClosing ih =>
      cases pairs with
      | cons here later =>
          rw [collect, if_neg ((alike _ _ here).1 ▸ noClosing)]
          refine (reads stack _ _ (.cons here later)).bind fun step image related => ?_
          obtain ⟨formulaEq, restPairs, stackEq⟩ := related
          rw [← formulaEq, ← stackEq]
          refine (ih step _ restPairs).bind fun all allImage related => ?_
          exact .ok related

theorem absorb_agree (stack : List Formula) (operand : Formula) (tokens others : List Token)
    (pairs : List.Forall₂ corresponds tokens others) :
    Agree corresponds (Operand.Alike corresponds) (absorb read input c stack operand tokens)
      (absorb readOther other c stack operand others) := by
  obtain ⟨finish, otherFinish, hasEnd, otherHasEnd, _⟩ := ends
  fun_induction absorb read input c stack operand tokens generalizing others with
  | case1 stack operand =>
      cases pairs
      rw [checkEnd_ok hasEnd, absorb, checkEnd_ok otherHasEnd]
      exact .ok ⟨rfl, .nil⟩
  | case2 stack operand token rest same ih =>
      cases pairs with
      | cons here later =>
          rw [absorb, if_pos ((alike _ _ here).1 ▸ same)]
          refine (reads _ _ _ (.cons here later)).bind fun step image related => ?_
          obtain ⟨formulaEq, restPairs, stackEq⟩ := related
          rw [← formulaEq, ← stackEq]
          refine (ih step _ restPairs).bind fun last lastImage related => ?_
          exact .ok related
  | case3 stack operand token rest different =>
      cases pairs with
      | cons here later =>
          rw [absorb, if_neg ((alike _ _ here).1 ▸ different)]
          exact .ok ⟨rfl, .cons here later⟩

theorem chain_agree (tokens others : List Token)
    (pairs : List.Forall₂ corresponds tokens others) :
    Agree corresponds (Operand.Alike corresponds) (chain read input c tokens)
      (chain readOther other c others) := by
  refine (reads [] _ _ pairs).bind fun first image related => ?_
  obtain ⟨formulaEq, restPairs, stackEq⟩ := related
  rw [← formulaEq, ← stackEq]
  refine (absorb_agree alike ends reads _ _ _ _ restPairs).bind fun last lastImage related => ?_
  exact .ok related

theorem group_agree {opening otherOpening : Token} (begin : corresponds opening otherOpening)
    (tokens others : List Token) (pairs : List.Forall₂ corresponds tokens others) :
    Agree corresponds (Operand.Alike corresponds) (group read input opening tokens)
      (group readOther other otherOpening others) := by
  refine (collect_agree alike ends reads _ _ _ _ pairs).bind fun all image related => ?_
  obtain ⟨stack, rest, noLonger⟩ := all
  obtain ⟨otherStack, otherRest, otherNoLonger⟩ := image
  obtain ⟨stackEq, restPairs⟩ := related
  cases stackEq
  cases restPairs with
  | nil => exact .error ⟨rfl, .some begin⟩
  | cons closing later =>
      rcases stack with _ | ⟨first, _ | ⟨second, below⟩⟩
      · exact .error ⟨rfl, .some begin⟩
      · exact .ok ⟨rfl, later⟩
      · exact .error ⟨rfl, .some begin⟩

omit reads

theorem expression_agree (allowance : Nat) :
    ReadAlike corresponds (expression input allowance) (expression other allowance) := by
  obtain ⟨finish, otherFinish, hasEnd, otherHasEnd, endsHere⟩ := id ends
  induction allowance with
  | zero =>
      intro stack tokens others pairs
      cases pairs with
      | nil =>
          refine .error ⟨rfl, ?_⟩
          rw [TokenInput.current?, TokenInput.current?, hasEnd, otherHasEnd]
          exact .some endsHere
      | cons here later => exact .error ⟨rfl, .some here⟩
  | succ allowance ih =>
      intro stack tokens others pairs
      cases pairs with
      | nil =>
          rw [expression, expression, hasEnd, otherHasEnd]
          refine .error ⟨congrArg (_ ++ ·.name) (alike _ _ endsHere).1, .some endsHere⟩
      | @cons token otherToken rest otherRest here later =>
          obtain ⟨sameKind, sameName⟩ := alike _ _ here
          have sameMessage (start : String) :
              start ++ token.kind.name = start ++ otherToken.kind.name := by rw [sameKind]
          cases kind : token.kind with
          | atom =>
              rw [expression, expression, ← sameKind, kind]
              exact .ok ⟨congrArg _ (sameName kind), later, rfl⟩
          | negation =>
              rw [expression, expression, ← sameKind, kind]
              refine (ih [] _ _ later).bind fun operand image related => ?_
              exact .ok ⟨congrArg _ related.1, related.2.1, rfl⟩
          | connective c =>
              rw [expression, expression, ← sameKind, kind]
              cases stack with
              | nil => exact .error ⟨sameMessage _, .some here⟩
              | cons left below =>
                  refine (chain_agree alike ends ih _ _ later).bind fun right image related => ?_
                  exact .ok ⟨congrArg _ related.1, related.2, rfl⟩
          | opening =>
              rw [expression, expression, ← sameKind, kind]
              refine (group_agree alike ends ih here _ _ later).bind fun inner image related => ?_
              exact .ok ⟨related.1, related.2, rfl⟩
          | closing =>
              rw [expression, expression, ← sameKind, kind]
              exact .error ⟨sameMessage _, .some here⟩
          | finish =>
              rw [expression, expression, ← sameKind, kind]
              exact .error ⟨sameMessage _, .some here⟩

/-! ## Whole inputs -/

omit alike in
theorem single_agree (stack : List Formula) :
    Agree corresponds Eq (single input stack) (single other stack) := by
  obtain ⟨finish, otherFinish, hasEnd, otherHasEnd, endsHere⟩ := ends
  rcases stack with _ | ⟨first, _ | ⟨second, below⟩⟩
  · rw [single, single, hasEnd, otherHasEnd]
    exact .error ⟨rfl, .some endsHere⟩
  · exact .ok rfl
  · cases printed : (first :: second :: below).reverse.mapM text with
    | ok texts =>
        simp only [single, printed]
        exact .error ⟨rfl, .none⟩
    | error cause =>
        simp only [single, printed]
        exact .error ⟨rfl, .none⟩

theorem ofInput_agree (pairs : List.Forall₂ corresponds input.tokens other.tokens) :
    Agree corresponds Eq (ofInput input) (ofInput other) := by
  have reads := expression_agree alike ends nestingLimit
  refine (collect_agree alike ends reads _ _ _ _ pairs).bind fun all image related => ?_
  rw [← related.1]
  exact single_agree ends all.stack

end Readers

end Formula

namespace Token

variable {tokens others : List Token}

theorem closed_alike
    (alike : List.Forall₂ Alike (beforeFinish tokens) (beforeFinish others)) :
    List.Forall₂ (fun t other => t.Alike other ∧ SamePlace tokens others t other)
      (beforeFinish tokens) (beforeFinish others) := by
  rw [List.forall₂_iff_get] at alike ⊢
  obtain ⟨sameLength, each⟩ := alike
  refine ⟨sameLength, fun place inside otherInside => ⟨each place inside otherInside, place, ?_⟩⟩
  simp [closed, List.getElem?_append_left inside, List.getElem?_append_left otherInside]

theorem samePlace_firstFinish (sameLength : (beforeFinish tokens).length =
    (beforeFinish others).length) :
    SamePlace tokens others (firstFinish tokens) (firstFinish others) := by
  refine ⟨(beforeFinish tokens).length, ?_, ?_⟩
  · simp [closed]
  · rw [sameLength]
    simp [closed]

end Token

theorem ofTokens_agree {tokens others : List Token}
    (alike : List.Forall₂ Token.Alike (Token.beforeFinish tokens) (Token.beforeFinish others)) :
    Agree (Token.SamePlace tokens others) Eq (Formula.ofTokens (tokens.map some))
      (Formula.ofTokens (others.map some)) := by
  have ends : EndAlike (fun t other => t.Alike other ∧ Token.SamePlace tokens others t other)
      (TokenInput.ofSequence tokens) (TokenInput.ofSequence others) := by
    refine ⟨_, _, rfl, rfl, ?_, Token.samePlace_firstFinish alike.length_eq⟩
    rw [Token.Alike, Token.kind_firstFinish, Token.kind_firstFinish]
    exact ⟨rfl, fun isAtom => by cases isAtom⟩
  have read := ofInput_agree (fun _ _ pair => pair.1) ends (Token.closed_alike alike)
  rw [Formula.ofTokens_map_some, Formula.ofTokens_map_some]
  refine (read.imp fun _ _ pair => pair.2).bind fun formula image same => ?_
  cases same
  cases formula.text with
  | ok printed => exact .ok rfl
  | error cause => exact .error ⟨rfl, .none⟩

/-- Sequences that agree up to their ends in the kinds of the tokens and the names of the atoms are
read alike: as one formula, or with one message about the tokens at one place. A text is read as
its tokens are, with the end token or without it. -/
theorem ofTokens_of_alike :
    (∀ tokens others : List Token,
      List.Forall₂ Token.Alike (Token.beforeFinish tokens) (Token.beforeFinish others) →
        Agree (Token.SamePlace tokens others) Eq (Formula.ofTokens (tokens.map some))
          (Formula.ofTokens (others.map some))) ∧
    ∀ (source : String) (tokens : List Token), Token.ofText source = .ok tokens →
      Formula.ofText source = (Formula.ofTokens (tokens.map some)).mapError .parse ∧
      Agree (Token.SamePlace tokens tokens.dropLast) Eq (Formula.ofTokens (tokens.map some))
        (Formula.ofTokens (tokens.dropLast.map some)) := by
  refine ⟨fun tokens others => ofTokens_agree, fun source tokens scanned => ?_⟩
  refine ⟨ofText_of_scan source tokens scanned, ofTokens_agree ?_⟩
  obtain ⟨lexemes, position, rfl, all⟩ := Token.lexical_of_scan 0 source.toList tokens scanned
  have whole := Token.beforeFinish_of_lexemes lexemes position all
  have alone : Token.beforeFinish lexemes = lexemes := by
    rw [← whole]
    exact List.takeWhile_idem
  rw [List.dropLast_concat, whole, alone, List.forall₂_same]
  exact fun t _ => ⟨rfl, fun _ => rfl⟩

/-- Neither what stands behind the end nor the end itself is needed, and a bracket or a word may
stand for an operator: the error is at the fourth place, where the one sequence has its end and the
other one is closed. -/
theorem ofTokens_of_alike_unfinished :
    let tokens : List Token := [⟨.opening, "(", 0⟩, ⟨.atom, "A", 1⟩,
      ⟨.connective .conjunction, "^", 2⟩, ⟨.finish, "", 3⟩, ⟨.closing, ")", 4⟩]
    let others : List Token := [⟨.opening, "[", -1⟩, ⟨.atom, "A", -1⟩,
      ⟨.connective .conjunction, "and", 7⟩]
    let scanned : List Token := [⟨.negation, "-", 0⟩, ⟨.atom, "A", 1⟩, ⟨.finish, "", 2⟩]
    (List.Forall₂ Token.Alike (Token.beforeFinish tokens) (Token.beforeFinish others) ∧
      Formula.ofTokens (tokens.map some) = .error (.unexpected ⟨.finish, "", 3⟩) ∧
      Formula.ofTokens (others.map some) = .error (.unexpected ⟨.finish, "", -1⟩) ∧
      Agree (Token.SamePlace tokens others) Eq (Formula.ofTokens (tokens.map some))
        (Formula.ofTokens (others.map some))) ∧
    Token.ofText "-A" = .ok scanned ∧
      Formula.ofText "-A" = (Formula.ofTokens (scanned.map some)).mapError .parse ∧
      Agree (Token.SamePlace scanned scanned.dropLast) Eq (Formula.ofTokens (scanned.map some))
        (Formula.ofTokens (scanned.dropLast.map some)) := by
  intro tokens others scanned
  have alike : List.Forall₂ Token.Alike (Token.beforeFinish tokens)
      (Token.beforeFinish others) :=
    .cons ⟨rfl, nofun⟩ (.cons ⟨rfl, fun _ => rfl⟩ (.cons ⟨rfl, nofun⟩ .nil))
  have read : Token.ofText "-A" = .ok scanned := by decide +kernel
  exact ⟨⟨alike, by decide +kernel, by decide +kernel, ofTokens_of_alike.1 tokens others alike⟩,
    read, ofTokens_of_alike.2 "-A" scanned read⟩

end Propositional
