import Propositional.Proofs.Grammar.Words
import Propositional.Proofs.Reading.Completeness
import Propositional.Proofs.Reading.Soundness
import Propositional.Proofs.Rendering
import Propositional.Proofs.Scanning
import Propositional.Table

/-!
# Token sequences and texts that are read as formulas

A token sequence without gaps is read as a formula if the tokens before its end are a phrase whose
need is within the limit (`ofTokens_of_derives`), and no other sequence is (`derives_of_ofTokens`).
The formula is the one that the runs of the phrase determine. `ofText_of_pieces` carries this over
to texts of spaced lexemes, and `lettered_of_ofText` gives the leaves of a formula that was read
from a text.
-/

set_option autoImplicit false

namespace Propositional

open Formula

def TokenInput.ofSequence (tokens : List Token) : TokenInput :=
  ⟨Token.beforeFinish tokens, some (Token.firstFinish tokens)⟩

theorem TokenInput.cut_map_some (tokens : List Token) :
    TokenInput.cut (tokens.map some) = ofSequence tokens := by
  induction tokens with
  | nil => rfl
  | cons token rest ih =>
      rw [List.map_cons, TokenInput.cut, ih, ofSequence, ofSequence, Token.beforeFinish_cons,
        Token.firstFinish_cons]
      by_cases isFinish : token.kind = .finish
      · simp [isFinish]
      · simp [isFinish]

theorem TokenInput.ofTokens_map_some (tokens : List Token) :
    TokenInput.ofTokens (tokens.map some) = .ok (ofSequence tokens) := by
  have noGap : (tokens.map some).getLast? ≠ some none := by
    rw [List.getLast?_map]
    cases tokens.getLast? <;> nofun
  rw [TokenInput.ofTokens, TokenInput.cut_map_some, if_neg noGap]

theorem Formula.ofTokens_map_some (tokens : List Token) :
    Formula.ofTokens (tokens.map some) = (do
      let formula ← ofInput (TokenInput.ofSequence tokens)
      match formula.text with
      | .ok _ => .ok formula
      | .error _ => .error .tooTall) := by
  rw [Formula.ofTokens, TokenInput.ofTokens_map_some]
  rfl

/-- What the grammar derives has one of two ends, as long as its formula can be printed. -/
theorem ofTokens_of_derives (tokens : List Token) (e : Phrase Primary)
    (derives : e.Derives (Token.beforeFinish tokens)) :
    (e.need ≤ nestingLimit → e.tree.height ≤ printLimit →
      Formula.ofTokens (tokens.map some) = .ok e.tree) ∧
    (nestingLimit < e.need →
      ∃ token, Formula.ofTokens (tokens.map some) = .error (.tooDeep token)) := by
  have hasEnd : (TokenInput.ofSequence tokens).finish? = some (Token.firstFinish tokens) := rfl
  have reads := reads_input hasEnd e derives
  rw [Formula.ofTokens_map_some]
  constructor
  · intro covered low
    obtain ⟨formula, read, rfl⟩ := reads.within covered
    rw [read]
    change (match e.tree.text with | .ok _ => _ | .error _ => _) = _
    rw [text_eq_rendering e.tree e.tree_concrete low]
  · intro exceeded
    obtain ⟨token, refused⟩ := reads.beyond exceeded
    rw [refused]
    exact ⟨token, rfl⟩

theorem ofTokens_derived_or_deep (tokens : List Token) (e : Phrase Primary)
    (derives : e.Derives (Token.beforeFinish tokens)) :
    (∃ cause, Formula.ofTokens (tokens.map some) = .error cause ∧
      cause.message = "Formula is nested too deeply") ∨
    Formula.ofTokens (tokens.map some) = .ok e.tree := by
  have hasEnd : (TokenInput.ofSequence tokens).finish? = some (Token.firstFinish tokens) := rfl
  have reads := reads_input hasEnd e derives
  rw [Formula.ofTokens_map_some]
  by_cases covered : e.need ≤ nestingLimit
  · obtain ⟨formula, read, rfl⟩ := reads.within covered
    rw [read]
    dsimp only [bind, Except.bind]
    cases e.tree.text with
    | ok printed => exact .inr rfl
    | error cause => exact .inl ⟨.tooTall, rfl, rfl⟩
  · obtain ⟨token, refused⟩ := reads.beyond (Nat.lt_of_not_le covered)
    rw [refused]
    exact .inl ⟨.tooDeep token, rfl, rfl⟩

/-- Only what the grammar derives is read, with the formula of the derivation. -/
theorem derives_of_ofTokens (tokens : List Token) (formula : Formula)
    (accepted : Formula.ofTokens (tokens.map some) = .ok formula) :
    ∃ e : Phrase Primary, e.Derives (Token.beforeFinish tokens) ∧ e.need ≤ nestingLimit ∧
      formula = e.tree := by
  rw [Formula.ofTokens_map_some] at accepted
  obtain ⟨read, inputRead, printed⟩ := bind_eq_ok accepted
  obtain ⟨e, derives⟩ := derives_of_ofInput _ read inputRead
  have reads := reads_input rfl e derives
  have covered : e.need ≤ nestingLimit := by
    by_contra exceeded
    obtain ⟨token, refused⟩ := reads.beyond (Nat.lt_of_not_le exceeded)
    rw [refused] at inputRead
    cases inputRead
  obtain ⟨tree, treeRead, treeEq⟩ := reads.within covered
  cases treeRead.symm.trans inputRead
  refine ⟨e, derives, covered, ?_⟩
  split at printed
  · cases printed
    exact treeEq
  · cases printed

theorem height_le_of_ofTokens {tokens : List Token} {f : Formula}
    (accepted : Formula.ofTokens (tokens.map some) = .ok f) : f.height ≤ printLimit := by
  rw [Formula.ofTokens_map_some] at accepted
  obtain ⟨read, _, printed⟩ := bind_eq_ok accepted
  split at printed
  · rename_i text printedText
    cases printed
    exact ((Formula.textWithin_eq_ok_iff text).mp printedText).1.2
  · cases printed

theorem concrete_of_ofTokens {tokens : List Token} {formula : Formula}
    (accepted : Formula.ofTokens (tokens.map some) = .ok formula) : formula.Concrete := by
  obtain ⟨e, _, _, rfl⟩ := derives_of_ofTokens tokens formula accepted
  exact e.tree_concrete

/-- A sequence is accepted exactly when the tokens before its end are a phrase that needs at most
250 nested expressions, and a phrase that needs more is refused as nested too deeply. -/
theorem ofTokens_accepts (tokens : List Token) :
    (∀ formula, Formula.ofTokens (tokens.map some) = .ok formula →
      ∃ e : Phrase Primary, e.Derives (Token.beforeFinish tokens) ∧ e.need ≤ 250) ∧
    ∀ e : Phrase Primary, e.Derives (Token.beforeFinish tokens) →
      (e.need ≤ 250 → e.tree.height ≤ 401 →
        Formula.ofTokens (tokens.map some) = .ok e.tree) ∧
      (250 < e.need →
        ∃ cause, Formula.ofTokens (tokens.map some) = .error cause ∧
          cause.message = "Formula is nested too deeply") := by
  constructor
  · intro formula accepted
    obtain ⟨e, derives, covered, _⟩ := derives_of_ofTokens tokens formula accepted
    exact ⟨e, derives, covered⟩
  · intro e derives
    obtain ⟨within, beyond⟩ := ofTokens_of_derives tokens e derives
    constructor
    · intro covered low
      exact within covered (Nat.le_trans low (by decide))
    · intro exceeded
      obtain ⟨token, refused⟩ := beyond exceeded
      exact ⟨.tooDeep token, refused, rfl⟩

theorem ofTokens_accepts_deep_negation :
    let sign : Token := { kind := .negation, raw := "-" }
    let letter : Token := { kind := .atom, raw := "A" }
    let phrase (depth : Nat) : Phrase Primary := ⟨Primary.negation^[depth] (.atom "A"), []⟩
    Formula.ofTokens ((List.replicate 249 sign ++ [letter]).map some) = .ok (phrase 249).tree ∧
      ∃ cause, Formula.ofTokens ((List.replicate 250 sign ++ [letter]).map some) = .error cause ∧
        cause.message = "Formula is nested too deeply" :=
  ⟨((ofTokens_accepts _).2 _ (by decide +kernel)).1 (by decide +kernel) (by decide +kernel),
    ((ofTokens_accepts _).2 ⟨Primary.negation^[250] (.atom "A"), []⟩ (by decide +kernel)).2
      (by decide +kernel)⟩

/-- The formula of an accepted sequence is that of the one phrase which the sequence is: run by
run, each run nested to the right. -/
theorem ofTokens_associates (tokens : List Token) (formula : Formula)
    (accepted : Formula.ofTokens (tokens.map some) = .ok formula) :
    ∃ e : Phrase Primary, e.Derives (Token.beforeFinish tokens) ∧
      (∀ other : Phrase Primary, other.Derives (Token.beforeFinish tokens) → other = e) ∧
      formula = e.tree := by
  obtain ⟨e, derives, _, treeEq⟩ := derives_of_ofTokens tokens formula accepted
  refine ⟨e, derives, fun other otherDerives => ?_, treeEq⟩
  exact Phrase.words_injective (otherDerives.symm.trans derives)

theorem ofTokens_associates_mixed :
    let letter (name : String) : Token := { kind := .atom, raw := name }
    let sign : Token := { kind := .negation, raw := "-" }
    let operator (c : Connective) : Token := { kind := .connective c, raw := c.symbol }
    let tokens := [letter "A", operator .conjunction, letter "B", operator .conjunction, sign,
      letter "C", operator .disjunction, letter "D"]
    let formula := Formula.binary .disjunction
      (.binary .conjunction (.atom "A") (.binary .conjunction (.atom "B") (.negation (.atom "C"))))
      (.atom "D")
    Formula.ofTokens (tokens.map some) = .ok formula ∧
      ∃ e : Phrase Primary, e.Derives (Token.beforeFinish tokens) ∧
        (∀ other : Phrase Primary, other.Derives (Token.beforeFinish tokens) → other = e) ∧
        formula = e.tree := by
  intro letter sign operator tokens formula
  have accepted : Formula.ofTokens (tokens.map some) = .ok formula := by decide +kernel
  exact ⟨accepted, ofTokens_associates tokens formula accepted⟩

/-! ## Texts -/

open Formula

theorem Token.beforeFinish_of_lexemes (lexemes : List Token) (position : Int)
    (all : ∀ t ∈ lexemes, Lexeme t.kind t.raw) :
    Token.beforeFinish (lexemes ++ [Token.finish position]) = lexemes := by
  induction lexemes with
  | nil => rfl
  | cons t rest ih =>
      have noFinish : ¬ t.kind = .finish := by
        intro isFinish
        have lexeme := all t (List.mem_cons_self ..)
        rw [isFinish] at lexeme
        cases lexeme
      rw [List.cons_append, Token.beforeFinish_cons, if_neg noFinish,
        ih fun other member => all other (List.mem_cons_of_mem _ member)]

theorem ofText_of_scan (source : String) (tokens : List Token)
    (scanned : Token.ofText source = .ok tokens) :
    Formula.ofText source = (Formula.ofTokens (tokens.map some)).mapError .parse := by
  rw [Formula.ofText, scanned]
  rfl

theorem derives_of_pieces (source : String) (pieces : List Piece)
    (legal : ∀ piece ∈ pieces, piece.Legal)
    (spelt : pieces.flatMap Piece.chars = source.toList) (e : Phrase Primary)
    (words : pieces.filterMap Piece.word? = e.words) :
    ∃ tokens, Token.ofText source = .ok tokens ∧ e.Derives (Token.beforeFinish tokens) := by
  have scanned := Token.scan_pieces 0 pieces legal
  rw [spelt] at scanned
  refine ⟨_, scanned, ?_⟩
  obtain ⟨lexemes, position, placed, all⟩ := Token.lexical_of_scan 0 _ _ scanned
  have placedWords := Piece.map_word_place 0 pieces
  rw [placed, List.map_append, words] at placedWords
  rw [placed, Token.beforeFinish_of_lexemes lexemes position all]
  exact List.append_inj_left' placedWords rfl

theorem ofText_of_pieces (source : String) (pieces : List Piece)
    (legal : ∀ piece ∈ pieces, piece.Legal)
    (spelt : pieces.flatMap Piece.chars = source.toList) (e : Phrase Primary)
    (words : pieces.filterMap Piece.word? = e.words) :
    (e.need ≤ nestingLimit → e.tree.height ≤ printLimit → Formula.ofText source = .ok e.tree) ∧
    (nestingLimit < e.need →
      ∃ token, Formula.ofText source = .error (.parse (.tooDeep token))) := by
  obtain ⟨tokens, scanned, derives⟩ := derives_of_pieces source pieces legal spelt e words
  obtain ⟨within, beyond⟩ := ofTokens_of_derives tokens e derives
  rw [ofText_of_scan source tokens scanned]
  constructor
  · intro covered low
    rw [within covered low]
    rfl
  · intro exceeded
    obtain ⟨token, refused⟩ := beyond exceeded
    rw [refused]
    exact ⟨token, rfl⟩

theorem ofText_eq_ok (source : String) (f : Formula) (accepted : Formula.ofText source = .ok f) :
    ∃ tokens, Token.ofText source = .ok tokens ∧ Formula.ofTokens (tokens.map some) = .ok f := by
  obtain ⟨tokens, scanned, read⟩ := bind_eq_ok accepted
  exact ⟨tokens, mapError_eq_ok_iff.mp scanned, mapError_eq_ok_iff.mp read⟩

theorem lettered_of_ofText (source : String) (f : Formula)
    (accepted : Formula.ofText source = .ok f) : f.Lettered := by
  obtain ⟨tokens, scanned, read⟩ := ofText_eq_ok source f accepted
  obtain ⟨lexemes, position, rfl, all⟩ := Token.lexical_of_scan 0 source.toList tokens scanned
  obtain ⟨e, derives, _, rfl⟩ := derives_of_ofTokens _ f read
  rw [Token.beforeFinish_of_lexemes lexemes position all] at derives
  refine Phrase.tree_closed (fun _ operand => operand) (fun _ _ _ left right => ⟨left, right⟩) e
    fun name member => ?_
  rw [← derives] at member
  obtain ⟨t, tokenMember, isAtom⟩ := List.mem_map.mp member
  obtain ⟨kind, rfl⟩ := Token.word_eq_atom.mp isAtom
  have lexeme := all t tokenMember
  rw [kind] at lexeme
  cases lexeme with
  | atom _ letter => exact letter

end Propositional
