import Propositional.Proofs.Reading.Loops

/-!
# What the reader accepts is derived

`expression_sound`: every expression that the reader returns has used up the tokens of a primary, or
the tokens of steps that continue the latest expression on its working stack. The expressions on a
stack are therefore phrases, one each, that together are the tokens read so far, and an input that
is read as one formula is one phrase (`derives_of_ofInput`).
-/

set_option autoImplicit false

namespace Propositional.Formula

variable {read : Reader} {input : TokenInput} {c : Connective}

/-- The tokens are a primary, or steps that continue the latest expression of the stack. -/
def Adds (tokens : List Token) (stack after : List Formula) : Prop :=
  (∃ p : Primary, tokens.map Token.word = p.words ∧ stack = after) ∨
    ∃ (left : Formula) (steps : List (Connective × Primary)),
      tokens.map Token.word = steps.flatMap stepWords ∧ stack = left :: after

def Sound (read : Reader) : Prop :=
  ∀ (stack : List Formula) (tokens : List Token) (x : Expression tokens.length),
    read stack tokens = .ok x → ∃ used, tokens = used ++ x.rest ∧ Adds used stack x.stack

theorem used_append {tokens used rest more last : List Token} (first : tokens = used ++ rest)
    (later : rest = more ++ last) : tokens = used ++ more ++ last := by
  rw [first, later, List.append_assoc]

/-! ## Operands -/

theorem absorb_sound (sound : Sound read) (stack : List Formula) (operand : Formula)
    (tokens : List Token) :
    ∀ last, absorb read input c stack operand tokens = .ok last →
      ∃ (used : List Token) (steps : List (Connective × Primary)), tokens = used ++ last.rest ∧
        used.map Token.word = steps.flatMap stepWords := by
  fun_induction absorb read input c stack operand tokens with
  | case1 stack operand =>
      intro last run
      obtain ⟨_, _, returned⟩ := bind_eq_ok run
      cases returned
      exact ⟨[], [], rfl, rfl⟩
  | case2 stack operand token rest same ih =>
      intro last run
      obtain ⟨step, stepRun, run⟩ := bind_eq_ok run
      obtain ⟨later, laterRun, returned⟩ := bind_eq_ok run
      cases returned
      obtain ⟨used, tokensEq, adds⟩ := sound _ _ step stepRun
      obtain ⟨more, moreSteps, restEq, moreSpelt⟩ := ih step later laterRun
      rcases adds with ⟨p, spelt, _⟩ | ⟨_, steps, spelt, _⟩
      · obtain ⟨word, words, wordsEq, _, noConnective⟩ := p.words_head
        rw [wordsEq] at spelt
        obtain ⟨operator, front, rfl, operatorWord, _⟩ := List.map_eq_cons_iff.mp spelt
        have sameToken : token = operator := (List.cons.inj tokensEq).1
        rw [← operatorWord, ← sameToken] at noConnective
        exact absurd (Token.word_eq_connective.mpr same) (noConnective c)
      · refine ⟨used ++ more, steps ++ moreSteps, used_append tokensEq restEq, ?_⟩
        rw [List.map_append, List.flatMap_append, spelt, moreSpelt]
  | case3 stack operand token rest other =>
      intro last run
      cases run
      exact ⟨[], [], rfl, rfl⟩

theorem chain_sound (sound : Sound read) (tokens : List Token) (last : Operand tokens.length)
    (run : chain read input c tokens = .ok last) :
    ∃ used, tokens = used ++ last.rest ∧
      ∃ (p : Primary) (steps : List (Connective × Primary)),
        used.map Token.word = p.words ++ steps.flatMap stepWords := by
  obtain ⟨first, firstRun, run⟩ := bind_eq_ok run
  obtain ⟨later, laterRun, returned⟩ := bind_eq_ok run
  cases returned
  obtain ⟨used, tokensEq, adds⟩ := sound _ _ first firstRun
  obtain ⟨more, steps, restEq, moreSpelt⟩ :=
    absorb_sound sound first.stack first.formula first.rest later laterRun
  rcases adds with ⟨p, spelt, _⟩ | ⟨_, _, _, stackEq⟩
  · refine ⟨used ++ more, used_append tokensEq restEq, p, steps, ?_⟩
    rw [List.map_append, spelt, moreSpelt]
  · cases stackEq

/-! ## Collections -/

def wordsOnStack (phrases : List (Phrase Primary)) : List Word :=
  phrases.reverse.flatMap Phrase.words

theorem wordsOnStack_cons (e : Phrase Primary) (phrases : List (Phrase Primary)) :
    wordsOnStack (e :: phrases) = wordsOnStack phrases ++ e.words := by
  simp [wordsOnStack]

/-- What an expression adds to a stack it adds to the phrases on it. -/
theorem Adds.phrases {tokens : List Token} {stack after : List Formula}
    (adds : Adds tokens stack after) (phrases : List (Phrase Primary))
    (size : phrases.length = stack.length) :
    ∃ larger : List (Phrase Primary), larger.length = after.length + 1 ∧
      wordsOnStack larger = wordsOnStack phrases ++ tokens.map Token.word := by
  rcases adds with ⟨p, spelt, stackEq⟩ | ⟨left, steps, spelt, stackEq⟩
  · refine ⟨⟨p, []⟩ :: phrases, by rw [List.length_cons, size, stackEq], ?_⟩
    rw [wordsOnStack_cons, Phrase.words_eq, spelt]
    simp
  · cases phrases with
    | nil => rw [stackEq] at size; cases size
    | cons e phrases =>
        refine ⟨⟨e.first, e.steps ++ steps⟩ :: phrases, ?_, ?_⟩
        · rw [stackEq] at size
          exact size
        · rw [wordsOnStack_cons, wordsOnStack_cons, Phrase.words_eq, Phrase.words_eq, spelt]
          simp

theorem collect_sound (sound : Sound read) (closes : Kind → Bool) (stack : List Formula)
    (tokens : List Token) :
    ∀ all, collect read input closes stack tokens = .ok all →
      ∀ phrases : List (Phrase Primary), phrases.length = stack.length →
        ∃ used, tokens = used ++ all.rest ∧
          ∃ larger : List (Phrase Primary), larger.length = all.stack.length ∧
            wordsOnStack larger = wordsOnStack phrases ++ used.map Token.word := by
  fun_induction collect read input closes stack tokens with
  | case1 stack =>
      intro all run phrases size
      obtain ⟨_, _, returned⟩ := bind_eq_ok run
      cases returned
      exact ⟨[], rfl, phrases, size, (List.append_nil _).symm⟩
  | case2 stack token rest closing =>
      intro all run phrases size
      cases run
      exact ⟨[], rfl, phrases, size, (List.append_nil _).symm⟩
  | case3 stack token rest noClosing ih =>
      intro all run phrases size
      obtain ⟨step, stepRun, run⟩ := bind_eq_ok run
      obtain ⟨later, laterRun, returned⟩ := bind_eq_ok run
      cases returned
      obtain ⟨used, tokensEq, adds⟩ := sound _ _ step stepRun
      obtain ⟨middle, middleSize, middleSpelt⟩ := adds.phrases phrases size
      obtain ⟨more, restEq, larger, largerSize, largerSpelt⟩ :=
        ih step later laterRun middle middleSize
      refine ⟨used ++ more, used_append tokensEq restEq, larger, largerSize, ?_⟩
      rw [largerSpelt, middleSpelt, List.map_append, List.append_assoc]

theorem collect_single (sound : Sound read) (closes : Kind → Bool) (tokens : List Token)
    (all : Collection tokens.length) (run : collect read input closes [] tokens = .ok all)
    (single : all.stack.length = 1) :
    ∃ used, tokens = used ++ all.rest ∧ ∃ e : Phrase Primary, e.Derives used := by
  obtain ⟨used, tokensEq, larger, size, spelt⟩ :=
    collect_sound sound closes [] tokens all run [] rfl
  obtain ⟨e, rfl⟩ := List.length_eq_one_iff.mp (size.trans single)
  refine ⟨used, tokensEq, e, ?_⟩
  rw [wordsOnStack_cons] at spelt
  exact spelt.symm

/-! ## Expressions and whole inputs -/

theorem group_sound (sound : Sound read) (opening : Token) (tokens : List Token)
    (inner : Operand tokens.length) (run : group read input opening tokens = .ok inner) :
    ∃ used closing, tokens = used ++ [closing] ++ inner.rest ∧ closing.kind = .closing ∧
      ∃ e : Phrase Primary, e.Derives used := by
  obtain ⟨⟨stack, rest, noLonger⟩, collected, run⟩ := bind_eq_ok run
  have halts := halts_of_collect (· = .closing) [] tokens _ collected
  cases rest with
  | nil => cases run
  | cons closing rest =>
      match stack, run with
      | [formula], run =>
          obtain ⟨used, tokensEq, e, derives⟩ := collect_single sound _ tokens _ collected rfl
          cases run
          rw [List.append_cons] at tokensEq
          exact ⟨used, closing, tokensEq, of_decide_eq_true halts, e, derives⟩

theorem expression_sound (input : TokenInput) (allowance : Nat) :
    Sound (expression input allowance) := by
  induction allowance with
  | zero =>
      intro stack tokens x run
      cases run
  | succ allowance ih =>
      intro stack tokens x run
      cases tokens with
      | nil => cases run
      | cons token rest =>
          cases kind : token.kind with
          | atom =>
              rw [expression, kind] at run
              cases run
              have isAtom := Token.word_eq_atom.mpr ⟨kind, rfl⟩
              exact ⟨[token], rfl, .inl ⟨.atom token.raw, congrArg (fun w => [w]) isAtom, rfl⟩⟩
          | negation =>
              rw [expression, kind] at run
              obtain ⟨operand, operandRun, returned⟩ := bind_eq_ok run
              cases returned
              obtain ⟨used, tokensEq, adds⟩ := ih [] rest operand operandRun
              rcases adds with ⟨p, spelt, _⟩ | ⟨_, _, _, stackEq⟩
              · refine ⟨token :: used, congrArg (token :: ·) tokensEq, .inl ⟨.negation p, ?_, rfl⟩⟩
                rw [List.map_cons, spelt, Token.word_eq_negation.mpr kind, Primary.words_negation]
              · cases stackEq
          | connective c =>
              rw [expression, kind] at run
              cases stack with
              | nil => cases run
              | cons left below =>
                  obtain ⟨right, rightRun, returned⟩ := bind_eq_ok run
                  cases returned
                  obtain ⟨used, tokensEq, p, steps, spelt⟩ := chain_sound ih rest right rightRun
                  refine ⟨token :: used, congrArg (token :: ·) tokensEq,
                    .inr ⟨left, (c, p) :: steps, ?_, rfl⟩⟩
                  rw [List.map_cons, spelt, Token.word_eq_connective.mpr kind]
                  rfl
          | opening =>
              rw [expression, kind] at run
              obtain ⟨inner, innerRun, returned⟩ := bind_eq_ok run
              cases returned
              obtain ⟨used, closing, tokensEq, closes, e, derives⟩ :=
                group_sound ih token rest inner innerRun
              refine ⟨token :: (used ++ [closing]), congrArg (token :: ·) tokensEq,
                .inl ⟨.group e, ?_, rfl⟩⟩
              rw [Primary.words_group, ← derives, List.map_cons, List.map_append,
                Token.word_eq_opening.mpr kind, List.map_singleton,
                Token.word_eq_closing.mpr closes]
          | closing =>
              rw [expression, kind] at run
              cases run
          | finish =>
              rw [expression, kind] at run
              cases run

theorem stack_of_single (input : TokenInput) (stack : List Formula) (formula : Formula)
    (run : single input stack = .ok formula) : stack = [formula] := by
  unfold single at run
  split at run
  · cases run
  · cases run
    rfl
  · split at run
    · cases run
    · cases run

theorem derives_of_ofInput (input : TokenInput) (formula : Formula)
    (run : ofInput input = .ok formula) : ∃ e : Phrase Primary, e.Derives input.tokens := by
  obtain ⟨⟨stack, rest, noLonger⟩, collected, run⟩ := bind_eq_ok run
  have halts := halts_of_collect (fun _ => false) [] input.tokens _ collected
  have stackEq := stack_of_single input stack formula run
  cases rest with
  | cons token rest => cases halts
  | nil =>
      obtain ⟨used, tokensEq, e, derives⟩ := collect_single (expression_sound input nestingLimit)
        _ input.tokens _ collected (congrArg List.length stackEq)
      rw [List.append_nil] at tokensEq
      exact ⟨e, tokensEq ▸ derives⟩

end Propositional.Formula
