import Propositional.Formula
import Propositional.Proofs.Outcome
import Propositional.Proofs.Scanning

/-!
# The text of a formula and its phrase

`textWithin_eq_ok_iff`: a formula has a text exactly when it is without holes and keeps within the
limit of printing, and the text does not depend on the limit. For a formula over letters the text is
made of spaced lexemes (`legal_pieces`, `chars_pieces`) whose words are a phrase (`words_pieces`)
with the formula as its tree (`tree_phrase`). The phrase needs one level of nesting for each pair of
parentheses and each right operand (`need_phrase`).
-/

set_option autoImplicit false

namespace Propositional

namespace Formula

def HoleFree : Formula → Prop
  | atom _ => True
  | negation operand => operand.HoleFree
  | binary _ left right => left.HoleFree ∧ right.HoleFree
  | unspecified left right => left.HoleFree ∧ right.HoleFree
  | hole => False

theorem holeFree_of_concrete (f : Formula) (concrete : f.Concrete) : f.HoleFree := by
  induction f with
  | atom name => trivial
  | negation operand ih => exact ih concrete
  | binary c left right leftIh rightIh => exact ⟨leftIh concrete.1, rightIh concrete.2⟩
  | unspecified left right => exact absurd concrete id
  | hole => exact concrete

/-- The text of a formula without holes, as a whole or as an operand. -/
def rendering (outermost : Bool) : Formula → String
  | atom name => name
  | negation operand => "-" ++ operand.rendering false
  | binary c left right =>
      enclose outermost (left.rendering false ++ " " ++ c.symbol ++ " " ++ right.rendering false)
  | unspecified left right =>
      enclose outermost (left.rendering false ++ " " ++ "?" ++ " " ++ right.rendering false)
  | hole => ""

/-- Printing over a number of levels reaches every node and meets no hole. -/
def Printable (f : Formula) (levels : Nat) : Prop :=
  f.HoleFree ∧ f.height ≤ levels

variable {f left right : Formula} {levels : Nat}

theorem not_printable_zero : ¬ f.Printable 0 :=
  fun printable => Nat.not_le.mpr f.height_pos printable.2

theorem printable_negation : (negation f).Printable (levels + 1) ↔ f.Printable levels := by
  simp [Printable, HoleFree, height]

theorem printable_binary {c : Connective} :
    (binary c left right).Printable (levels + 1) ↔
      left.Printable levels ∧ right.Printable levels := by
  rw [Printable, height_binary_le]
  exact and_and_and_comm

theorem printable_unspecified :
    (unspecified left right).Printable (levels + 1) ↔
      left.Printable levels ∧ right.Printable levels := by
  rw [Printable, height_unspecified_le]
  exact and_and_and_comm

theorem textWithin_eq_ok_iff {outermost : Bool} (printed : String) :
    f.textWithin levels outermost = .ok printed ↔
      f.Printable levels ∧ printed = f.rendering outermost := by
  induction f generalizing levels outermost printed with
  | atom name =>
      cases levels <;> simp [textWithin, Printable, HoleFree, height, rendering, eq_comm]
  | negation operand ih =>
      cases levels with
      | zero => simp [textWithin, not_printable_zero]
      | succ levels =>
          rw [printable_negation]
          exact map_eq_ok_iff ih ("-" ++ ·)
  | binary c left right leftIh rightIh =>
      cases levels with
      | zero => simp [textWithin, not_printable_zero]
      | succ levels =>
          rw [printable_binary]
          exact map₂_eq_ok_iff leftIh rightIh fun before after =>
            enclose outermost (before ++ " " ++ c.symbol ++ " " ++ after)
  | unspecified left right leftIh rightIh =>
      cases levels with
      | zero => simp [textWithin, not_printable_zero]
      | succ levels =>
          rw [printable_unspecified]
          exact map₂_eq_ok_iff leftIh rightIh fun before after =>
            enclose outermost (before ++ " " ++ "?" ++ " " ++ after)
  | hole => cases levels <;> simp [textWithin, Printable, HoleFree]

theorem textWithin_of_hole {outermost : Bool} (low : f.height ≤ levels) (hasHole : ¬ f.HoleFree) :
    f.textWithin levels outermost = .error .undefined := by
  have sides {left right : Formula} {levels : Nat} {symbol : String} {outermost : Bool}
      (leftLow : left.height ≤ levels)
      (leftFails : ¬ left.HoleFree → left.textWithin levels false = .error .undefined)
      (rightFails : ¬ right.HoleFree → right.textWithin levels false = .error .undefined)
      (hasHole : ¬ (left.HoleFree ∧ right.HoleFree)) :
      binaryText outermost symbol (left.textWithin levels false) (right.textWithin levels false) =
        .error .undefined := by
    by_cases leftFree : left.HoleFree
    · rw [(textWithin_eq_ok_iff _).mpr ⟨⟨leftFree, leftLow⟩, rfl⟩,
        rightFails fun rightFree => hasHole ⟨leftFree, rightFree⟩]
      rfl
    · rw [leftFails leftFree]
      rfl
  induction f generalizing levels outermost with
  | atom name => exact absurd trivial hasHole
  | negation operand ih =>
      obtain ⟨below, rfl⟩ := exists_below low
      rw [textWithin, ih (Nat.le_of_succ_le_succ low) hasHole]
      rfl
  | binary c left right leftIh rightIh =>
      obtain ⟨below, rfl⟩ := exists_below low
      obtain ⟨leftLow, rightLow⟩ := height_binary_le.mp low
      exact sides leftLow (leftIh leftLow) (rightIh rightLow) hasHole
  | unspecified left right leftIh rightIh =>
      obtain ⟨below, rfl⟩ := exists_below low
      obtain ⟨leftLow, rightLow⟩ := height_unspecified_le.mp low
      exact sides leftLow (leftIh leftLow) (rightIh rightLow) hasHole
  | hole =>
      obtain ⟨below, rfl⟩ := exists_below low
      rfl

theorem text_eq_rendering (f : Formula) (concrete : f.Concrete) (low : f.height ≤ printLimit) :
    f.text = .ok (f.rendering true) :=
  (textWithin_eq_ok_iff _).mpr ⟨⟨holeFree_of_concrete f concrete, low⟩, rfl⟩

end Formula

/-! ## The phrase of a text -/

namespace Formula

/-! ## Pieces -/

def enclosePieces (outermost : Bool) (pieces : List Piece) : List Piece :=
  if outermost then pieces else .lexeme .opening "(" :: pieces ++ [.lexeme .closing ")"]

def operatorPieces (c : Connective) : List Piece :=
  [.spacing ' ', .lexeme (.connective c) c.symbol, .spacing ' ']

def pieces (outermost : Bool) : Formula → List Piece
  | atom name => [.lexeme .atom name]
  | negation operand => .lexeme .negation "-" :: operand.pieces false
  | binary c left right =>
      enclosePieces outermost (left.pieces false ++ operatorPieces c ++ right.pieces false)
  | unspecified _ _ => []
  | hole => []

theorem chars_pieces (f : Formula) (concrete : f.Concrete) (outermost : Bool) :
    (f.pieces outermost).flatMap Piece.chars = (f.rendering outermost).toList := by
  induction f generalizing outermost with
  | atom name => simp [pieces, rendering, Piece.chars]
  | negation operand ih =>
      rw [pieces, List.flatMap_cons, ih concrete false, rendering, String.toList_append]
      rfl
  | binary c left right leftIh rightIh =>
      have leftChars := leftIh concrete.1 false
      have rightChars := rightIh concrete.2 false
      cases outermost <;>
        simp [pieces, enclosePieces, operatorPieces, rendering, enclose, Piece.chars, leftChars,
          rightChars]
  | unspecified left right => exact absurd concrete id
  | hole => exact absurd concrete id

theorem legal_operatorPieces (c : Connective) : ∀ piece ∈ operatorPieces c, piece.Legal := by
  have spacing : (Piece.spacing ' ').Legal := rfl
  have symbol : (Piece.lexeme (.connective c) c.symbol).Legal := lexeme_symbol c
  simp [operatorPieces, spacing, symbol]

theorem legal_enclosePieces (outermost : Bool) (inner : List Piece)
    (legal : ∀ piece ∈ inner, piece.Legal) :
    ∀ piece ∈ enclosePieces outermost inner, piece.Legal := by
  cases outermost with
  | true => exact legal
  | false =>
      intro piece member
      rcases List.mem_append.mp member with member | member
      · rcases List.mem_cons.mp member with rfl | member
        · exact Lexeme.opening
        · exact legal piece member
      · rw [List.mem_singleton.mp member]
        exact Lexeme.closing

theorem legal_pieces (f : Formula) (lettered : f.Lettered) (outermost : Bool) :
    ∀ piece ∈ f.pieces outermost, piece.Legal := by
  induction f generalizing outermost with
  | atom name =>
      intro piece member
      rw [List.mem_singleton.mp member]
      exact Lexeme.atom name lettered
  | negation operand ih =>
      intro piece member
      rcases List.mem_cons.mp member with rfl | member
      · exact Lexeme.negation
      · exact ih lettered false piece member
  | binary c left right leftIh rightIh =>
      refine legal_enclosePieces outermost _ fun piece member => ?_
      rcases List.mem_append.mp member with member | member
      · rcases List.mem_append.mp member with member | member
        · exact leftIh lettered.1 false piece member
        · exact legal_operatorPieces c piece member
      · exact rightIh lettered.2 false piece member
  | unspecified left right => exact absurd lettered id
  | hole => exact absurd lettered id

/-! ## Words -/

/-- The primary that the text of a concrete formula is where it is an operand. A form without
words stands for nothing. -/
def primary : Formula → Primary
  | atom name => .atom name
  | negation operand => .negation operand.primary
  | binary c left right => .group ⟨left.primary, [(c, right.primary)]⟩
  | unspecified _ _ => .atom ""
  | hole => .atom ""

/-- The phrase that the whole text of a concrete formula is. -/
def phrase : Formula → Phrase Primary
  | binary c left right => ⟨left.primary, [(c, right.primary)]⟩
  | f => ⟨f.primary, []⟩

theorem words_step (p q : Primary) (c : Connective) :
    (Phrase.mk p [(c, q)]).words = p.words ++ .connective c :: q.words := by
  rw [Phrase.words_eq]
  simp [stepWords]

theorem words_alone (p : Primary) : (Phrase.mk p []).words = p.words := by
  rw [Phrase.words_eq]
  simp

theorem words_operandPieces (f : Formula) (concrete : f.Concrete) :
    (f.pieces false).filterMap Piece.word? = f.primary.words := by
  induction f with
  | atom name => rfl
  | negation operand ih =>
      rw [pieces, primary, Primary.words_negation, ← ih concrete]
      rfl
  | binary c left right leftIh rightIh =>
      rw [primary, Primary.words_group, words_step, ← leftIh concrete.1, ← rightIh concrete.2]
      simp [pieces, enclosePieces, operatorPieces, List.filterMap_cons, Piece.word?, Token.word]
  | unspecified left right => exact absurd concrete id
  | hole => exact absurd concrete id

theorem words_pieces (f : Formula) (concrete : f.Concrete) :
    (f.pieces true).filterMap Piece.word? = f.phrase.words := by
  cases f with
  | atom name => exact (words_operandPieces _ concrete).trans (words_alone _).symm
  | negation operand => exact (words_operandPieces _ concrete).trans (words_alone _).symm
  | binary c left right =>
      rw [phrase, words_step, ← words_operandPieces left concrete.1,
        ← words_operandPieces right concrete.2]
      simp [pieces, enclosePieces, operatorPieces, List.filterMap_cons, Piece.word?, Token.word]
  | unspecified left right => exact absurd concrete id
  | hole => exact absurd concrete id

/-! ## The formula and the nesting of the phrase -/

theorem tree_primary (f : Formula) (concrete : f.Concrete) : f.primary.tree = f := by
  induction f with
  | atom name => rfl
  | negation operand ih => rw [primary, Primary.tree_negation, ih concrete]
  | binary c left right leftIh rightIh =>
      rw [primary, Primary.tree_group]
      change binary c left.primary.tree right.primary.tree = _
      rw [leftIh concrete.1, rightIh concrete.2]
  | unspecified left right => exact absurd concrete id
  | hole => exact absurd concrete id

theorem tree_phrase (f : Formula) (concrete : f.Concrete) : f.phrase.tree = f := by
  cases f with
  | atom name => rfl
  | negation operand => exact tree_primary _ concrete
  | binary c left right =>
      change binary c left.primary.tree right.primary.tree = _
      rw [tree_primary left concrete.1, tree_primary right concrete.2]
  | unspecified left right => exact absurd concrete id
  | hole => exact absurd concrete id

def operandNeed : Formula → Nat
  | atom _ => 1
  | negation operand => 1 + operand.operandNeed
  | binary _ left right => 1 + max left.operandNeed (1 + right.operandNeed)
  | unspecified left right => 1 + max left.operandNeed (1 + right.operandNeed)
  | hole => 1

/-- The nesting that reading the whole text of a formula needs. -/
def textNeed : Formula → Nat
  | binary _ left right => max left.operandNeed (1 + right.operandNeed)
  | f => f.operandNeed

theorem need_step (p q : Primary) (c : Connective) :
    (Phrase.mk p [(c, q)]).need = max p.need (1 + q.need) := by
  change max p.need (max (max (0 + 1 + q.need) 0) 0) = _
  omega

theorem need_primary (f : Formula) (concrete : f.Concrete) : f.primary.need = f.operandNeed := by
  induction f with
  | atom name => rfl
  | negation operand ih => rw [primary, Primary.need_negation, ih concrete, operandNeed]
  | binary c left right leftIh rightIh =>
      rw [primary, Primary.need_group, need_step, leftIh concrete.1, rightIh concrete.2,
        operandNeed]
  | unspecified left right => exact absurd concrete id
  | hole => exact absurd concrete id

theorem need_phrase (f : Formula) (concrete : f.Concrete) : f.phrase.need = f.textNeed := by
  cases f with
  | atom name => rfl
  | negation operand =>
      have needEq := need_primary (negation operand) concrete
      change max (negation operand).primary.need 0 = (negation operand).operandNeed
      omega
  | binary c left right =>
      rw [phrase, need_step, need_primary left concrete.1, need_primary right concrete.2, textNeed]
  | unspecified left right => exact absurd concrete id
  | hole => exact absurd concrete id

end Formula

end Propositional
