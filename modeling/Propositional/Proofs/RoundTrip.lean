import Propositional.Proofs.Alternation
import Propositional.Proofs.Grammar.Words
import Propositional.Proofs.Rendering

/-!
# Formulas and their texts

`formula_of_text`: a text belongs to one formula over letters, also where it nests deeper than
formulas are read. `ofText_text` and `read_back_iff` tell which texts are read back as the formula
that was printed: printing adds parentheses, so a formula can be read and yet not be read back.
-/

set_option autoImplicit false

namespace Propositional

/-! ## A text belongs to one formula -/

namespace Formula

theorem exists_phrase_of_pieces (f : Formula) (concrete : f.Concrete) (outermost : Bool) :
    ∃ e : Phrase Primary,
      (f.pieces outermost).filterMap Piece.word? = e.words ∧ e.tree = f := by
  cases outermost with
  | true => exact ⟨f.phrase, words_pieces f concrete, tree_phrase f concrete⟩
  | false =>
      refine ⟨⟨f.primary, []⟩, ?_, tree_primary f concrete⟩
      rw [words_operandPieces f concrete, words_alone]

variable {f g : Formula} (fLettered : f.Lettered) (gLettered : g.Lettered)

include fLettered gLettered

theorem rendering_unique {outermost otherOutermost : Bool}
    (same : f.rendering outermost = g.rendering otherOutermost) : f = g := by
  have fConcrete := concrete_of_lettered f fLettered
  have gConcrete := concrete_of_lettered g gLettered
  obtain ⟨e, fWords, fTree⟩ := exists_phrase_of_pieces f fConcrete outermost
  obtain ⟨d, gWords, gTree⟩ := exists_phrase_of_pieces g gConcrete otherOutermost
  have sameChars : (f.pieces outermost).flatMap Piece.chars =
      (g.pieces otherOutermost).flatMap Piece.chars := by
    rw [chars_pieces f fConcrete, chars_pieces g gConcrete, same]
  have sameWords : e.words = d.words := by
    rw [← fWords, ← gWords]
    exact Token.words_unique _ _ (legal_pieces f fLettered outermost)
      (legal_pieces g gLettered otherOutermost) sameChars
  rw [← fTree, ← gTree, Phrase.words_injective sameWords]

theorem textWithin_unique {levels otherLevels : Nat} {outermost otherOutermost : Bool}
    {printed : String} (fText : f.textWithin levels outermost = .ok printed)
    (gText : g.textWithin otherLevels otherOutermost = .ok printed) : f = g := by
  obtain ⟨_, rfl⟩ := (textWithin_eq_ok_iff printed).mp fText
  obtain ⟨_, same⟩ := (textWithin_eq_ok_iff _).mp gText
  exact rendering_unique fLettered gLettered same

end Formula

open Formula

/-- Formulas over letters whose texts are equal are equal, however high they are: the texts as
wholes, those as operands, and even one of each. -/
theorem formula_of_text (f g : Formula) (fLettered : f.Lettered) (gLettered : g.Lettered)
    (printed other : String) (fText : f.text = .ok printed ∨ f.operandText = .ok printed)
    (gText : g.text = .ok other ∨ g.operandText = .ok other) : printed = other → f = g := by
  rintro rfl
  rcases fText with fText | fText <;> rcases gText with gText | gText <;>
    exact textWithin_unique fLettered gLettered fText gText

/-- Two groupings of the same letters, each below 300 negations, have different texts, though
neither of them can be read. -/
theorem formula_of_text_deep :
    let a := Formula.atom "A"
    let b := Formula.atom "B"
    let c := Formula.atom "C"
    let f := Formula.negation^[300] (.binary .conjunction a (.binary .disjunction b c))
    let g := Formula.negation^[300] (.binary .disjunction (.binary .conjunction a b) c)
    ∃ printed other, f.text = .ok printed ∧ g.text = .ok other ∧ printed ≠ other ∧
      nestingLimit < f.textNeed ∧ nestingLimit < g.textNeed := by
  intro a b c f g
  have negated (n : Nat) (operand : Formula) (lettered : operand.Lettered) :
      (negation^[n] operand).Lettered := by
    induction n generalizing operand with
    | zero => exact lettered
    | succ n ih => exact ih (.negation operand) lettered
  have aLetter : IsLetter "A" := ⟨'A', rfl, by decide⟩
  have bLetter : IsLetter "B" := ⟨'B', rfl, by decide⟩
  have cLetter : IsLetter "C" := ⟨'C', rfl, by decide⟩
  have fLettered : f.Lettered := negated 300 _ ⟨aLetter, bLetter, cLetter⟩
  have gLettered : g.Lettered := negated 300 _ ⟨⟨aLetter, bLetter⟩, cLetter⟩
  have fText := text_eq_rendering f (concrete_of_lettered f fLettered) (by decide +kernel)
  have gText := text_eq_rendering g (concrete_of_lettered g gLettered) (by decide +kernel)
  have different : f ≠ g := by decide +kernel
  refine ⟨_, _, fText, gText, fun same => different ?_, by decide +kernel, by decide +kernel⟩
  exact formula_of_text f g fLettered gLettered _ _ (.inl fText) (.inl gText) same

/-! ## Reading back what was printed -/

theorem ofText_rendering (f : Formula) (lettered : f.Lettered) (low : f.height ≤ printLimit) :
    f.text = .ok (f.rendering true) ∧
      (f.textNeed ≤ nestingLimit → Formula.ofText (f.rendering true) = .ok f) ∧
      (nestingLimit < f.textNeed →
        ∃ token, Formula.ofText (f.rendering true) = .error (.parse (.tooDeep token))) := by
  have concrete := concrete_of_lettered f lettered
  have ends := ofText_of_pieces (f.rendering true) (f.pieces true) (legal_pieces f lettered true)
    (chars_pieces f concrete true) f.phrase (words_pieces f concrete)
  rw [need_phrase f concrete, tree_phrase f concrete] at ends
  exact ⟨text_eq_rendering f concrete low, fun covered => ends.1 covered low, ends.2⟩

/-- Every formula over letters that is at most 401 levels high is printed, and its text has one of
two ends: it is read back as the same formula, or it is refused as nested too deeply. -/
theorem ofText_text (f : Formula) (lettered : f.Lettered) (low : f.height ≤ 401) :
    ∃ printed, f.text = .ok printed ∧
      (f.textNeed ≤ 250 → Formula.ofText printed = .ok f) ∧
      (250 < f.textNeed →
        ∃ cause, Formula.ofText printed = .error (.parse cause) ∧
          cause.message = "Formula is nested too deeply") := by
  have printable : f.height ≤ printLimit := Nat.le_trans low (by decide)
  obtain ⟨printed, within, beyond⟩ := ofText_rendering f lettered printable
  refine ⟨f.rendering true, printed, within, fun exceeded => ?_⟩
  obtain ⟨token, refused⟩ := beyond exceeded
  exact ⟨.tooDeep token, refused, rfl⟩

theorem ofText_text_mixed :
    let formula := binary .conditional
      (negation (binary .conjunction (.atom "A") (.atom "B")))
      (binary .disjunction (.atom "B") (negation (.atom "C")))
    formula.text = .ok "-(A ^ B) -> (B v -C)" ∧
      Formula.ofText "-(A ^ B) -> (B v -C)" = .ok formula := by
  intro formula
  have printed : formula.text = .ok "-(A ^ B) -> (B v -C)" := by decide +kernel
  have lettered : formula.Lettered :=
    ⟨⟨⟨'A', rfl, by decide⟩, ⟨'B', rfl, by decide⟩⟩, ⟨'B', rfl, by decide⟩, ⟨'C', rfl, by decide⟩⟩
  obtain ⟨source, textEq, within, _⟩ := ofText_text formula lettered (by decide)
  cases textEq.symm.trans printed
  exact ⟨printed, within (by decide)⟩

/-- The text of a formula that was read from a text is read back as the same formula exactly when
it needs at most 250 nested expressions. The text that the formula was read from can need less. -/
theorem read_back_iff (source : String) (f : Formula) (accepted : Formula.ofText source = .ok f)
    (low : f.height ≤ 401) :
    ∃ printed, f.text = .ok printed ∧
      (Formula.ofText printed = .ok f ↔ f.textNeed ≤ 250) ∧
      (250 < f.textNeed →
        ∃ cause, Formula.ofText printed = .error (.parse cause) ∧
          cause.message = "Formula is nested too deeply") := by
  have lettered := lettered_of_ofText source f accepted
  have printable : f.height ≤ printLimit := Nat.le_trans low (by decide)
  obtain ⟨printed, within, beyond⟩ := ofText_rendering f lettered printable
  refine ⟨f.rendering true, printed, ⟨fun read => ?_, within⟩, fun exceeded => ?_⟩
  · by_contra exceeded
    obtain ⟨token, refused⟩ := beyond (Nat.lt_of_not_le exceeded)
    cases refused.symm.trans read
  · obtain ⟨token, refused⟩ := beyond exceeded
    exact ⟨.tooDeep token, refused, rfl⟩

theorem read_back_alternating :
    let source := alternatingText "A" .conjunction .disjunction 249
    let formula := alternate "A" .conjunction .disjunction 249 (.atom "A")
    Formula.ofText source = .ok formula ∧ formula.height ≤ 401 ∧
      ∃ printed, formula.text = .ok printed ∧ Formula.ofText printed = .ok formula := by
  intro source formula
  have letter : IsLetter "A" := ⟨'A', rfl, by decide⟩
  have accepted : Formula.ofText source = .ok formula :=
    ofText_alternating letter (by decide) 249 (by decide)
  have low : formula.height ≤ 401 := by
    rw [height_alternate 249 (.atom "A") Nat.one_pos]
    decide
  obtain ⟨printed, textEq, reads, _⟩ := read_back_iff source formula accepted low
  exact ⟨accepted, low, printed, textEq, reads.mpr (Nat.le_of_eq (textNeed_alternating 248))⟩

/-- One step more and the formula of the chain is read, but its text is refused. -/
theorem not_read_back_alternating :
    let source := alternatingText "A" .conjunction .disjunction 250
    let formula := alternate "A" .conjunction .disjunction 250 (.atom "A")
    Formula.ofText source = .ok formula ∧ formula.height ≤ 401 ∧
      ∃ printed, formula.text = .ok printed ∧
        ∃ cause, Formula.ofText printed = .error (.parse cause) ∧
          cause.message = "Formula is nested too deeply" := by
  intro source formula
  have letter : IsLetter "A" := ⟨'A', rfl, by decide⟩
  have accepted : Formula.ofText source = .ok formula :=
    ofText_alternating letter (by decide) 250 (by decide)
  have low : formula.height ≤ 401 := by
    rw [height_alternate 250 (.atom "A") Nat.one_pos]
    decide
  have printable : formula.height ≤ printLimit := Nat.le_trans low (by decide)
  have lettered := lettered_of_ofText source formula accepted
  have exceeded : nestingLimit < formula.textNeed :=
    Nat.lt_of_lt_of_eq (by decide) (textNeed_alternating 249).symm
  obtain ⟨printed, _, beyond⟩ := ofText_rendering formula lettered printable
  obtain ⟨token, refused⟩ := beyond exceeded
  exact ⟨accepted, low, formula.rendering true, printed, .tooDeep token, refused, rfl⟩

end Propositional
