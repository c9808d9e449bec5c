import Propositional.Proofs.Reading.Verdict

/-!
# Sequences too short to be nested too deeply

An expression is read inside of another one only behind a token of the outer one, and every level of
a formula has a token. `expression_fits` bounds both by the number of tokens, so a sequence of fewer
than 250 tokens ends with the verdict of its survey.
-/

set_option autoImplicit false

namespace Propositional

open Formula

def Unbounded {α : Type} (outcome : Except ParseError α) (Result : α → Prop) : Prop :=
  match outcome with
  | .ok value => Result value
  | .error cause => ¬ cause.OfDepth

theorem Unbounded.bind {α β : Type} {outcome : Except ParseError α}
    {next : α → Except ParseError β} {Before : α → Prop} {After : β → Prop}
    (head : Unbounded outcome Before)
    (tail : ∀ value, Before value → Unbounded (next value) After) :
    Unbounded (outcome >>= next) After := by
  cases outcome with
  | ok value => exact tail value head
  | error cause => exact head

theorem Unbounded.checkEnd (input : TokenInput) : Unbounded input.checkEnd fun _ => True := by
  unfold TokenInput.checkEnd
  cases input.finish? with
  | none => exact id
  | some finish => trivial

/-- The formula has no other nodes than a text can say, and at most `size` levels together with the
tokens that are left. -/
def Formula.Fits (size : Nat) (rest : List Token) (f : Formula) : Prop :=
  f.Concrete ∧ f.height + rest.length ≤ size

theorem Formula.Fits.shorter {size : Nat} {f : Formula} {rest later : List Token}
    (fits : f.Fits size rest) (le : later.length ≤ rest.length) : f.Fits size later :=
  ⟨fits.1, Nat.le_trans (Nat.add_le_add_left le _) fits.2⟩

/-- What is read of fewer than `bound` tokens fits into the number of tokens. -/
def ReadsFitting (bound : Nat) (read : Reader) : Prop :=
  ∀ (size : Nat) (stack : List Formula) (tokens : List Token), tokens.length < bound →
    tokens.length ≤ size → (∀ f ∈ stack, f.Fits size tokens) →
    Unbounded (read stack tokens) fun x => ∀ f ∈ x.formula :: x.stack, f.Fits size x.rest

section Loops

variable {read : Reader} {input : TokenInput} {bound size : Nat}

theorem collect_fits (fitting : ReadsFitting bound read) (closes : Kind → Bool)
    (stack : List Formula) (tokens : List Token) (few : tokens.length < bound)
    (le : tokens.length ≤ size) (fits : ∀ f ∈ stack, f.Fits size tokens) :
    Unbounded (collect read input closes stack tokens) fun all =>
      ∀ f ∈ all.stack, f.Fits size all.rest := by
  fun_induction collect read input closes stack tokens with
  | case1 stack => exact (Unbounded.checkEnd input).bind fun _ _ => fits
  | case2 stack token rest closing => exact fits
  | case3 stack token rest noClosing ih =>
      refine (fitting size stack (token :: rest) few le fits).bind fun step stepFits => ?_
      have fewer := Nat.lt_trans step.shorter few
      have leStep := Nat.le_trans (Nat.le_of_lt step.shorter) le
      exact (ih step fewer leStep stepFits).bind fun later laterFits => laterFits

theorem absorb_fits (fitting : ReadsFitting bound read) (c : Connective) (stack : List Formula)
    (operand : Formula) (tokens : List Token) (few : tokens.length < bound)
    (le : tokens.length ≤ size) (fits : ∀ f ∈ operand :: stack, f.Fits size tokens) :
    Unbounded (absorb read input c stack operand tokens) fun last =>
      last.formula.Fits size last.rest := by
  fun_induction absorb read input c stack operand tokens with
  | case1 stack operand =>
      exact (Unbounded.checkEnd input).bind fun _ _ => fits operand (List.mem_cons_self ..)
  | case2 stack operand token rest same ih =>
      refine (fitting size _ (token :: rest) few le fits).bind fun step stepFits => ?_
      have fewer := Nat.lt_trans step.shorter few
      have leStep := Nat.le_trans (Nat.le_of_lt step.shorter) le
      exact (ih step fewer leStep stepFits).bind fun last lastFits => lastFits
  | case3 stack operand token rest other => exact fits operand (List.mem_cons_self ..)

theorem chain_fits (fitting : ReadsFitting bound read) (c : Connective) (tokens : List Token)
    (few : tokens.length < bound) :
    Unbounded (chain read input c tokens) fun last =>
      last.formula.Fits tokens.length last.rest := by
  refine (fitting tokens.length [] tokens few (Nat.le_refl _) (List.forall_mem_nil _)).bind
    fun first firstFits => ?_
  have le := Nat.le_of_lt first.shorter
  exact (absorb_fits fitting c _ _ _ (Nat.lt_of_le_of_lt le few) le firstFits).bind
    fun last lastFits => lastFits

theorem group_fits (fitting : ReadsFitting bound read) (opening : Token) (tokens : List Token)
    (few : tokens.length < bound) :
    Unbounded (group read input opening tokens) fun inner =>
      inner.formula.Fits tokens.length inner.rest := by
  refine (collect_fits fitting _ [] tokens few (Nat.le_refl _) (List.forall_mem_nil _)).bind
    fun inside insideFits => ?_
  rcases inside with ⟨stack, rest, noLonger⟩
  rcases rest with _ | ⟨closing, rest⟩
  · exact id
  · rcases stack with _ | ⟨formula, _ | ⟨second, others⟩⟩
    · exact id
    · exact (insideFits formula (List.mem_cons_self ..)).shorter (Nat.le_succ _)
    · exact id

end Loops

theorem expression_fits (input : TokenInput) (allowance : Nat) :
    ReadsFitting allowance (expression input allowance) := by
  induction allowance with
  | zero => exact fun size stack tokens few => absurd few (Nat.not_lt_zero _)
  | succ allowance ih =>
      intro size stack tokens few le fits
      cases tokens with
      | nil =>
          rw [expression]
          cases input.finish? <;> exact id
      | cons token rest =>
          rw [List.length_cons] at few le
          have fewer := Nat.lt_of_succ_lt_succ few
          cases kind : token.kind with
          | negation =>
            rw [expression, kind]
            refine (ih rest.length [] rest fewer (Nat.le_refl _) (List.forall_mem_nil _)).bind
              fun operand operandFits => ?_
            obtain ⟨concrete, low⟩ := operandFits operand.formula (List.mem_cons_self ..)
            refine List.forall_mem_cons.mpr ⟨⟨concrete, ?_⟩, fun f member =>
              (fits f member).shorter (Nat.le_of_lt (Nat.lt_succ_of_lt operand.shorter))⟩
            dsimp only [height]
            omega
          | atom =>
            rw [expression, kind]
            refine List.forall_mem_cons.mpr ⟨⟨trivial, ?_⟩, fun f member =>
              (fits f member).shorter (Nat.le_succ _)⟩
            dsimp only [height]
            omega
          | connective c =>
            rw [expression, kind]
            cases stack with
            | nil => exact id
            | cons left others =>
                refine (chain_fits ih _ rest fewer).bind fun right rightFits => ?_
                obtain ⟨leftFits, othersFit⟩ := List.forall_mem_cons.mp fits
                have shorter := right.shorter
                have leftLow := leftFits.2
                have rightLow := rightFits.2
                refine List.forall_mem_cons.mpr ⟨⟨⟨leftFits.1, rightFits.1⟩, ?_⟩, fun f member =>
                  (othersFit f member).shorter (Nat.le_of_lt (Nat.lt_succ_of_lt shorter))⟩
                rw [List.length_cons] at leftLow
                dsimp only [height]
                omega
          | opening =>
            rw [expression, kind]
            refine (group_fits ih token rest fewer).bind fun inner innerFits => ?_
            refine List.forall_mem_cons.mpr ⟨⟨innerFits.1, ?_⟩, fun f member =>
              (fits f member).shorter (Nat.le_of_lt (Nat.lt_succ_of_lt inner.shorter))⟩
            exact Nat.le_trans innerFits.2 (Nat.le_of_succ_le le)
          | closing =>
            rw [expression, kind]
            exact id
          | finish =>
            rw [expression, kind]
            exact id

theorem text_of_fits {size : Nat} {rest : List Token} {f : Formula} (fits : f.Fits size rest)
    (few : size < nestingLimit) : ∃ text, f.text = .ok text := by
  have low : f.height ≤ printLimit :=
    Nat.le_trans (Nat.le_of_add_right_le fits.2) (Nat.le_trans (Nat.le_of_lt few) (by decide))
  exact ⟨_, text_eq_rendering f fits.1 low⟩

theorem single_fits (input : TokenInput) {size : Nat} {rest : List Token} {stack : List Formula}
    (few : size < nestingLimit) (fits : ∀ f ∈ stack, f.Fits size rest) :
    Unbounded (single input stack) fun formula => ∃ text, formula.text = .ok text := by
  rcases stack with _ | ⟨first, _ | ⟨second, others⟩⟩
  · rw [single]
    cases input.finish? <;> exact id
  · exact text_of_fits (fits first (List.mem_cons_self ..)) few
  · have printed : ∃ texts, (first :: second :: others).reverse.mapM text = .ok texts :=
      exists_mapM fun f member => text_of_fits (fits f (List.mem_reverse.mp member)) few
    obtain ⟨texts, run⟩ := printed
    simp only [single, run]
    exact id

theorem ofInput_fits (input : TokenInput) (few : input.tokens.length < nestingLimit) :
    Unbounded (ofInput input) fun formula => ∃ text, formula.text = .ok text := by
  rw [ofInput]
  exact (collect_fits (expression_fits input nestingLimit) _ [] input.tokens few (Nat.le_refl _)
    (List.forall_mem_nil _)).bind fun all fits => single_fits input few fits

/-- A sequence of fewer than 250 tokens is not refused as nested too deeply: reading it ends with
the verdict of the survey. -/
theorem ofTokens_verdict_of_few (tokens : List Token)
    (few : (Token.beforeFinish tokens).length < 250) :
    Verdict.ofOutcome (Formula.ofTokens (tokens.map some)) = some (Token.verdict tokens) := by
  have shallow : Unbounded (Formula.ofTokens (tokens.map some)) fun _ => True := by
    rw [Formula.ofTokens_map_some]
    refine (ofInput_fits (TokenInput.ofSequence tokens) few).bind fun formula printed => ?_
    obtain ⟨text, printed⟩ := printed
    simp only [printed]
    trivial
  cases outcome : Formula.ofTokens (tokens.map some) with
  | ok formula => exact congrArg some (verdict_of_ok outcome).symm
  | error cause =>
      rw [outcome] at shallow
      have read := ofTokens_foretold tokens
      rw [outcome] at read
      exact read.resolve_left shallow

/-- A 250th token can be one too many, though the sequence ends behind it. -/
example : Formula.ofTokens ((List.replicate 250 { kind := .negation, raw := "-" }).map some) =
    .error (.tooDeep (some Token.finish)) := by
  decide +kernel

end Propositional
