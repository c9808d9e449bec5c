import Propositional.Formula.Parse
import Propositional.Proofs.Grammar
import Propositional.Proofs.Outcome

/-!
# The loops of the reader

The right operand of a connective ends where that connective does not follow, and so does the
expression made of it (`not_ahead_of_operator`). The loop over a run of one connective therefore
never turns twice (`absorb_operator`): its first turn reads the rest of the run.
-/

set_option autoImplicit false

namespace Propositional

def Token.Ahead (kind : Kind) : List Token → Prop
  | [] => False
  | token :: _ => token.kind = kind

instance Token.decidableAhead (kind : Kind) (tokens : List Token) :
    Decidable (Token.Ahead kind tokens) := by
  cases tokens <;> unfold Token.Ahead <;> infer_instance

namespace Formula

variable {read : Reader} {input : TokenInput} {finish : Token} {c : Connective}

theorem checkEnd_ok (hasEnd : input.finish? = some finish) : input.checkEnd = .ok () := by
  simp [TokenInput.checkEnd, hasEnd]

/-! ## Where the right operand of a connective ends -/

theorem absorb_stop (hasEnd : input.finish? = some finish) (stack : List Formula)
    (operand : Formula) (tokens : List Token) (stops : ¬ Token.Ahead (.connective c) tokens) :
    absorb read input c stack operand tokens = .ok ⟨operand, tokens, Nat.lt_succ_self _⟩ := by
  cases tokens with
  | nil =>
      rw [absorb, checkEnd_ok hasEnd]
      rfl
  | cons token rest =>
      have other : ¬ token.kind = .connective c := stops
      rw [absorb, if_neg other]

theorem not_ahead_of_absorb (stack : List Formula) (operand : Formula) (tokens : List Token) :
    ∀ last, absorb read input c stack operand tokens = .ok last →
      ¬ Token.Ahead (.connective c) last.rest := by
  fun_induction absorb read input c stack operand tokens with
  | case1 stack operand =>
      intro last run
      obtain ⟨_, _, returned⟩ := bind_eq_ok run
      cases returned
      exact id
  | case2 stack operand token rest same ih =>
      intro last run
      obtain ⟨step, _, run⟩ := bind_eq_ok run
      obtain ⟨later, laterRun, returned⟩ := bind_eq_ok run
      cases returned
      exact ih step later laterRun
  | case3 stack operand token rest other =>
      intro last run
      cases run
      exact other

theorem not_ahead_of_chain (tokens : List Token) (last : Operand tokens.length)
    (run : chain read input c tokens = .ok last) : ¬ Token.Ahead (.connective c) last.rest := by
  obtain ⟨first, _, run⟩ := bind_eq_ok run
  obtain ⟨later, laterRun, returned⟩ := bind_eq_ok run
  cases returned
  exact not_ahead_of_absorb first.stack first.formula first.rest later laterRun

/-- An operator's expression reaches to the end of the operator's run. -/
theorem not_ahead_of_operator (allowance : Nat) (stack : List Formula) (token : Token)
    (rest : List Token) (same : token.kind = .connective c)
    (step : Expression (token :: rest).length)
    (run : expression input allowance stack (token :: rest) = .ok step) :
    ¬ Token.Ahead (.connective c) step.rest := by
  cases allowance with
  | zero => cases run
  | succ allowance =>
      rw [expression, same] at run
      cases stack with
      | nil => cases run
      | cons left below =>
          obtain ⟨right, rightRun, returned⟩ := bind_eq_ok run
          cases returned
          exact not_ahead_of_chain rest right rightRun

/-! ## The loop turns at most once -/

theorem absorb_operator (hasEnd : input.finish? = some finish) (allowance : Nat)
    (stack : List Formula) (operand : Formula) (tokens : List Token)
    (ahead : Token.Ahead (.connective c) tokens) :
    absorb (expression input allowance) input c stack operand tokens = (do
      let step ← expression input allowance (operand :: stack) tokens
      return ⟨step.formula, step.rest, Nat.lt_succ_of_lt step.shorter⟩) := by
  cases tokens with
  | nil => exact absurd ahead id
  | cons token rest =>
      have same : token.kind = .connective c := ahead
      rw [absorb, if_pos same]
      cases run : expression input allowance (operand :: stack) (token :: rest) with
      | error cause => rfl
      | ok step =>
          have stops := not_ahead_of_operator allowance _ token rest same step run
          change (absorb _ input c step.stack step.formula step.rest >>= _) = _
          rw [absorb_stop hasEnd step.stack step.formula step.rest stops]
          rfl

/-- The right operand of a connective is one expression, or that expression as the left operand of
the same connective with the right operand that follows. -/
theorem chain_eq (hasEnd : input.finish? = some finish) (allowance : Nat) (tokens : List Token) :
    chain (expression input allowance) input c tokens = (do
      let first ← expression input allowance [] tokens
      if Token.Ahead (.connective c) first.rest then
        let step ← expression input allowance (first.formula :: first.stack) first.rest
        return ⟨step.formula, step.rest, Nat.lt_trans step.shorter first.shorter⟩
      else return ⟨first.formula, first.rest, first.shorter⟩) := by
  rw [chain]
  refine bind_congr fun first => ?_
  by_cases ahead : Token.Ahead (.connective c) first.rest
  · rw [if_pos ahead, absorb_operator hasEnd allowance _ _ _ ahead, bind_assoc]
    rfl
  · rw [if_neg ahead, absorb_stop hasEnd _ _ _ ahead]
    rfl

/-! ## Where a collection ends -/

/-- A collection ends here: there is no token left, or a closing one is next. -/
def Halts (closes : Kind → Bool) : List Token → Prop
  | [] => True
  | token :: _ => closes token.kind = true

theorem collect_stop (hasEnd : input.finish? = some finish) (closes : Kind → Bool)
    (stack : List Formula) (tokens : List Token) (halts : Halts closes tokens) :
    collect read input closes stack tokens = .ok ⟨stack, tokens, Nat.le_refl _⟩ := by
  cases tokens with
  | nil =>
      rw [collect, checkEnd_ok hasEnd]
      rfl
  | cons token rest =>
      have closing : closes token.kind = true := halts
      rw [collect, if_pos closing]

theorem collect_step (closes : Kind → Bool) (stack : List Formula) (tokens : List Token)
    (goesOn : ¬ Halts closes tokens) :
    collect read input closes stack tokens = (do
      let step ← read stack tokens
      let later ← collect read input closes (step.formula :: step.stack) step.rest
      return ⟨later.stack, later.rest,
        Nat.le_of_lt (Nat.lt_of_le_of_lt later.noLonger step.shorter)⟩) := by
  cases tokens with
  | nil => exact absurd trivial goesOn
  | cons token rest =>
      have noClosing : ¬ closes token.kind = true := goesOn
      rw [collect, if_neg noClosing]

theorem halts_of_collect (closes : Kind → Bool) (stack : List Formula) (tokens : List Token) :
    ∀ all, collect read input closes stack tokens = .ok all → Halts closes all.rest := by
  fun_induction collect read input closes stack tokens with
  | case1 stack =>
      intro all run
      obtain ⟨_, _, returned⟩ := bind_eq_ok run
      cases returned
      trivial
  | case2 stack token rest closing =>
      intro all run
      cases run
      exact closing
  | case3 stack token rest noClosing ih =>
      intro all run
      obtain ⟨step, _, run⟩ := bind_eq_ok run
      obtain ⟨later, laterRun, returned⟩ := bind_eq_ok run
      cases returned
      exact ih step later laterRun

end Formula

end Propositional
