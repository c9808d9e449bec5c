import Propositional.Proofs.Reading.Acceptance
import Propositional.Proofs.Rendering
import Propositional.Proofs.Scanning.Spacing

/-!
# Chains that change their connective at every step

In a chain of one letter where two connectives take turns, every step takes all that stands before
it as its left operand. The formula grows by a level with each step, and so does the nesting of its
text, while the chain itself never needs more than two expressions open at once.
-/

set_option autoImplicit false

namespace Propositional

open Formula

/-- The steps of a chain with `c` first, then `d`, and so on. -/
def alternatingSteps (name : String) : Connective → Connective → Nat → List (Connective × Primary)
  | _, _, 0 => []
  | c, d, n + 1 => (c, .atom name) :: alternatingSteps name d c n

def alternate (name : String) : Connective → Connective → Nat → Formula → Formula
  | _, _, 0, left => left
  | c, d, n + 1, left => alternate name d c n (.binary c left (.atom name))

def alternatingPhrase (name : String) (c d : Connective) (n : Nat) : Phrase Primary :=
  ⟨.atom name, alternatingSteps name c d n⟩

def alternatingPieces (name : String) (c d : Connective) (n : Nat) : List Piece :=
  .lexeme .atom name :: (alternatingSteps name c d n).flatMap fun step =>
    [.lexeme (.connective step.1) step.1.symbol, .lexeme .atom name]

def alternatingText (name : String) (c d : Connective) (n : Nat) : String :=
  String.ofList ((alternatingPieces name c d n).flatMap Piece.chars)

variable {name : String} {c d : Connective}

theorem ofSteps_alternating (different : c ≠ d) (n : Nat) :
    Run.ofSteps (alternatingSteps name c d n) =
      (alternatingSteps name c d n).map fun step => ⟨step.1, step.2, []⟩ := by
  induction n generalizing c d with
  | zero => rfl
  | succ n ih =>
      rw [alternatingSteps, Run.ofSteps, ih different.symm]
      cases n with
      | zero => rfl
      | succ n => simp [alternatingSteps, Run.push, different]

theorem tree_alternating (different : c ≠ d) (n : Nat) :
    (alternatingPhrase name c d n).tree = alternate name c d n (.atom name) := by
  rw [Phrase.tree_eq, Phrase.runs, alternatingPhrase, ofSteps_alternating different, List.foldl_map,
    Primary.tree_atom]
  generalize Formula.atom name = left
  induction n generalizing c d left with
  | zero => rfl
  | succ n ih => exact ih different.symm _

theorem need_alternating (different : c ≠ d) (n : Nat) :
    (alternatingPhrase name c d n).need ≤ 2 := by
  have stepsNeed : (((alternatingSteps name c d n).map fun step =>
      ((Run.mk step.1 step.2 []).map Primary.need).need).foldr max 0) ≤ 2 := by
    induction n generalizing c d with
    | zero => exact Nat.zero_le 2
    | succ n ih => exact Nat.max_le.mpr ⟨Nat.le_refl 2, ih different.symm⟩
  rw [Phrase.need_eq, Phrase.runs, alternatingPhrase, ofSteps_alternating different, List.map_map]
  exact Nat.max_le.mpr ⟨Nat.le_succ 1, stepsNeed⟩

theorem height_alternate (n : Nat) (left : Formula) (positive : 0 < left.height) :
    (alternate name c d n left).height = left.height + n := by
  induction n generalizing c d left with
  | zero => rfl
  | succ n ih =>
      have stepHeight : (binary c left (.atom name)).height = left.height + 1 := by
        rw [height, height]
        omega
      rw [alternate, ih _ (by omega), stepHeight]
      omega

/-- The last step is the root, so the text needs one level less than the text as an operand. -/
theorem textNeed_alternate (n : Nat) (left right : Formula) :
    (alternate name c d n (.binary d left right)).textNeed + 1 =
      (alternate name c d n (.binary d left right)).operandNeed := by
  induction n generalizing c d left right with
  | zero => exact Nat.add_comm _ _
  | succ n ih => exact ih _ _

theorem operandNeed_alternate (n : Nat) (left : Formula) (nested : 2 ≤ left.operandNeed) :
    (alternate name c d n left).operandNeed = left.operandNeed + n := by
  induction n generalizing c d left with
  | zero => rfl
  | succ n ih =>
      have stepNeed : (binary c left (.atom name)).operandNeed = left.operandNeed + 1 := by
        rw [operandNeed, operandNeed]
        omega
      rw [alternate, ih _ (by omega), stepNeed]
      omega

theorem textNeed_alternating (n : Nat) :
    (alternate name c d (n + 1) (.atom name)).textNeed = n + 2 := by
  have innerNeed : (binary c (.atom name) (.atom name)).operandNeed = 3 := rfl
  have rootNeed : (alternate name d c n (.binary c (.atom name) (.atom name))).textNeed + 1 =
      3 + n := by
    rw [textNeed_alternate, operandNeed_alternate n _ (by omega), innerNeed]
  rw [alternate]
  omega

theorem legal_alternating (letter : IsLetter name) (n : Nat) :
    ∀ piece ∈ alternatingPieces name c d n, piece.Legal := by
  intro piece member
  rcases List.mem_cons.mp member with rfl | member
  · exact Lexeme.atom name letter
  obtain ⟨step, _, member⟩ := List.mem_flatMap.mp member
  rcases List.mem_cons.mp member with rfl | member
  · exact lexeme_symbol step.1
  · rw [List.mem_singleton.mp member]
    exact Lexeme.atom name letter

theorem strip_alternating (letter : IsLetter name) (n : Nat) :
    Text.strip (alternatingText name c d n) = alternatingText name c d n := by
  refine Text.strip_of_inked fun c member => ?_
  rw [alternatingText, String.toList_ofList] at member
  obtain ⟨piece, inside, char⟩ := List.mem_flatMap.mp member
  rw [Piece.isBlank_of_mem_chars (legal_alternating letter n piece inside) char]
  rcases List.mem_cons.mp inside with rfl | inside
  · rfl
  · obtain ⟨step, _, inside⟩ := List.mem_flatMap.mp inside
    rcases List.mem_pair.mp inside with rfl | rfl <;> rfl

theorem words_alternating (n : Nat) :
    (alternatingPieces name c d n).filterMap Piece.word? = (alternatingPhrase name c d n).words := by
  have stepsWords : ((alternatingSteps name c d n).flatMap fun step =>
      [Piece.lexeme (.connective step.1) step.1.symbol, .lexeme .atom name]).filterMap
        Piece.word? = (alternatingSteps name c d n).flatMap stepWords := by
    induction n generalizing c d with
    | zero => rfl
    | succ n ih =>
        rw [alternatingSteps, List.flatMap_cons, List.filterMap_append, ih]
        rfl
  rw [Phrase.words_eq, alternatingPhrase, ← stepsWords]
  rfl

/-- Chains with up to 999 steps are read. -/
theorem ofText_alternating (letter : IsLetter name) (different : c ≠ d) (n : Nat)
    (low : n < printLimit) :
    Formula.ofText (alternatingText name c d n) = .ok (alternate name c d n (.atom name)) := by
  have ends := ofText_of_pieces (alternatingText name c d n) _
    (legal_alternating letter n) String.toList_ofList.symm (alternatingPhrase name c d n)
    (words_alternating n)
  rw [tree_alternating different, height_alternate n (.atom name) Nat.one_pos] at ends
  have covered : (alternatingPhrase name c d n).need ≤ nestingLimit :=
    Nat.le_trans (need_alternating different n) (by decide)
  refine ends.1 covered ?_
  rw [height]
  omega

end Propositional
