import Propositional.Proofs.Grammar.Words
import Propositional.Proofs.Reading.Acceptance
import Propositional.Proofs.Renaming
import Propositional.Proofs.Tabulation

/-!
# The order of what is read

`ofTokens_inOrder`: the formula of an accepted sequence, read from left to right, gives the tokens
back without the parentheses. `analysis_follows_text`: the atoms of an analysed text are its letters
in the order in which they first occur, and it has a column for every negation and connective.
-/

set_option autoImplicit false

namespace Propositional

/-! ## Tokens in order -/

/-- The words of a formula from left to right: a negation in front of its operand, a connective
between its sides. -/
def Formula.inOrder : Formula → List Word
  | atom name => [.atom name]
  | negation operand => .negation :: operand.inOrder
  | binary c left right => left.inOrder ++ .connective c :: right.inOrder
  | unspecified left right => left.inOrder ++ right.inOrder
  | hole => []

def Word.isKept : Word → Bool
  | opening => false
  | closing => false
  | _ => true

theorem Token.isKept_word (t : Token) :
    t.word.isKept = decide (t.kind ≠ .opening ∧ t.kind ≠ .closing) := by
  cases kind : t.kind <;> simp [Token.word, Word.isKept, kind]

theorem Phrase.tree_inOrder (e : Phrase Primary) :
    e.tree.inOrder = e.words.filter Word.isKept := by
  have binary : ∀ c left right, (Formula.binary c left right).inOrder =
      left.inOrder ++ (Option.guard Word.isKept (.connective c)).toList ++ right.inOrder := by
    intro c left right
    simp [Formula.inOrder, Word.isKept, Option.guard]
  rw [← List.filterMap_eq_filter, List.filterMap_eq_flatMap_toList]
  exact @Phrase.tree_reading Word Formula.inOrder
    (fun word => (Option.guard Word.isKept word).toList) (fun _ => rfl) (fun _ => rfl) binary
    rfl rfl e

/-- The formula of an accepted sequence, read from left to right, is the sequence before its end
without the parentheses. Nothing is lost, doubled or moved. -/
theorem ofTokens_inOrder (tokens : List Token) (formula : Formula)
    (accepted : Formula.ofTokens (tokens.map some) = .ok formula) :
    formula.inOrder =
      ((Token.beforeFinish tokens).filter fun t =>
        t.kind ≠ .opening ∧ t.kind ≠ .closing).map Token.word := by
  obtain ⟨e, derives, _, rfl⟩ := derives_of_ofTokens tokens formula accepted
  calc e.tree.inOrder = e.words.filter Word.isKept := e.tree_inOrder
    _ = ((Token.beforeFinish tokens).map Token.word).filter Word.isKept := by rw [derives]
    _ = ((Token.beforeFinish tokens).filter fun t => t.word.isKept).map Token.word :=
        List.filter_map
    _ = _ := by simp only [Token.isKept_word]

/-- In `A v -(B ^ C) <-> (A)` one group is negated and one holds an atom alone. What stands behind
the end is not read. -/
theorem ofTokens_inOrder_groups :
    let letter (name : String) : Token := { kind := .atom, raw := name }
    let operator (c : Connective) : Token := { kind := .connective c, raw := c.symbol }
    let sign : Token := { kind := .negation, raw := "-" }
    let opening : Token := { kind := .opening, raw := "(" }
    let closing : Token := { kind := .closing, raw := ")" }
    let tokens := [letter "A", operator .disjunction, sign, opening, letter "B",
      operator .conjunction, letter "C", closing, operator .equivalence, opening, letter "A",
      closing, Token.finish 20, letter "D"]
    let formula := Formula.binary .equivalence
      (.binary .disjunction (.atom "A")
        (.negation (.binary .conjunction (.atom "B") (.atom "C"))))
      (.atom "A")
    Formula.ofTokens (tokens.map some) = .ok formula ∧
      formula.inOrder = [.atom "A", .connective .disjunction, .negation, .atom "B",
        .connective .conjunction, .atom "C", .connective .equivalence, .atom "A"] := by
  intro letter operator sign opening closing tokens formula
  have accepted : Formula.ofTokens (tokens.map some) = .ok formula := by decide +kernel
  exact ⟨accepted, ofTokens_inOrder tokens formula accepted⟩

/-! ## Columns in order -/

namespace Kind

def IsConnective (kind : Kind) : Prop :=
  ∃ c, kind = .connective c

instance decidableIsConnective : DecidablePred IsConnective
  | connective c => .isTrue ⟨c, rfl⟩
  | atom => .isFalse nofun
  | negation => .isFalse nofun
  | opening => .isFalse nofun
  | closing => .isFalse nofun
  | finish => .isFalse nofun

end Kind

/-! ## Letters -/

namespace Token

variable {tokens : List Token}

theorem name?_word (t : Token) : t.word.name? = if t.kind = .atom then some t.raw else none := by
  cases kind : t.kind <;> simp [word, Word.name?, kind]

theorem names_of_lexeme {kind : Kind} {raw : String} (lexeme : Lexeme kind raw) :
    (raw.toList.filter fun c => NamesAtom c).map String.singleton =
      if kind = .atom then [raw] else [] := by
  cases lexeme with
  | atom name letter =>
      obtain ⟨c, rfl, isLetter⟩ := letter
      have named : NamesAtom c := isLetter
      simp [named]
  | _ => decide

theorem names_of_scan {position : Nat} {chars : List Char}
    (scanned : scan position chars = .ok tokens) :
    (tokens.filterMap fun t => if t.kind = .atom then some t.raw else none) =
      (chars.filter fun c => NamesAtom c).map String.singleton := by
  obtain ⟨pieces, legal, rfl, rfl⟩ := pieces_of_scan position chars tokens scanned
  induction pieces generalizing position with
  | nil => rfl
  | cons piece rest ih =>
      obtain ⟨here, later⟩ := List.forall_mem_cons.mp legal
      cases piece with
      | spacing c =>
          have noLetter : ¬ NamesAtom c := fun isLetter => by
            have spacing : isSpacing c = true := here
            rw [isSpacing_letter c isLetter.1] at spacing
            cases spacing
          have restNames := ih later (scan_pieces (position + 1) rest later)
          simpa [Piece.place, Piece.chars, noLetter] using restNames
      | lexeme kind raw =>
          have restNames := ih later (scan_pieces (position + raw.length) rest later)
          rw [Piece.place, List.filterMap_cons, List.flatMap_cons, List.filter_append,
            List.map_append, Piece.chars, names_of_lexeme here, ← restNames]
          split_ifs <;> rfl

end Token

/-! ## Operators -/

def Word.isOperator : Word → Bool
  | negation => true
  | connective _ => true
  | _ => false

theorem Token.countP_isOperator (tokens : List Token) :
    tokens.countP (fun t => t.word.isOperator) =
      tokens.countP (fun t => t.kind = .negation) + tokens.countP fun t => t.kind.IsConnective := by
  induction tokens with
  | nil => rfl
  | cons t rest ih =>
      rw [List.countP_cons, List.countP_cons, List.countP_cons, ih]
      cases kind : t.kind <;>
        simp [Token.word, Word.isOperator, Kind.IsConnective, kind] <;> omega

theorem Formula.length_parts_inOrder {f : Formula} (concrete : f.Concrete) :
    f.parts.length = f.inOrder.countP Word.isOperator := by
  induction f with
  | atom name => rfl
  | negation operand ih => simp [parts, inOrder, List.countP_cons, Word.isOperator, ih concrete]
  | binary c left right leftIh rightIh =>
      simp [parts, inOrder, List.countP_cons, Word.isOperator, leftIh concrete.1,
        rightIh concrete.2]
  | unspecified left right _ _ => exact concrete.elim
  | hole => exact concrete.elim

theorem Phrase.length_parts (e : Phrase Primary) :
    e.tree.parts.length = e.words.countP Word.isOperator := by
  have kept : ∀ word : Word, (word.isOperator && word.isKept) = word.isOperator := by
    intro word
    cases word <;> rfl
  rw [Formula.length_parts_inOrder e.tree_concrete, e.tree_inOrder, List.countP_filter]
  exact List.countP_congr fun word _ => by rw [kept]

/-! ## Texts -/

theorem exists_phrase_of_ofText {source : String} {f : Formula}
    (accepted : Formula.ofText source = .ok f) :
    ∃ (tokens : List Token) (e : Phrase Primary), Token.ofText source = .ok tokens ∧
      tokens.map Token.word = e.words ++ [.finish] ∧ f = e.tree := by
  obtain ⟨tokens, scanned, read⟩ := ofText_eq_ok source f accepted
  obtain ⟨lexemes, position, rfl, all⟩ := Token.lexical_of_scan 0 source.toList tokens scanned
  obtain ⟨e, derives, _, treeEq⟩ := derives_of_ofTokens _ f read
  rw [Token.beforeFinish_of_lexemes lexemes position all] at derives
  refine ⟨_, e, scanned, ?_, treeEq⟩
  rw [List.map_append, derives]
  rfl

theorem leaves_of_ofText {source : String} {f : Formula}
    (accepted : Formula.ofText source = .ok f) :
    f.leaves = (source.toList.filter fun c => NamesAtom c).map String.singleton := by
  obtain ⟨tokens, e, scanned, words, rfl⟩ := exists_phrase_of_ofText accepted
  have noName : [Word.finish].filterMap Word.name? = [] := rfl
  calc e.tree.leaves = e.words.filterMap Word.name? := e.tree_leaves
    _ = (tokens.map Token.word).filterMap Word.name? := by
        rw [words, List.filterMap_append, noName, List.append_nil]
    _ = tokens.filterMap fun t => if t.kind = .atom then some t.raw else none := by
        rw [List.filterMap_map]
        exact congrArg (tokens.filterMap ·) (funext Token.name?_word)
    _ = _ := Token.names_of_scan scanned

/-- The atoms of an analysed text are its letters other than `V`, each once and in the order of
their first occurrences. The text has as many negations and connectives as the analysis has columns.
-/
theorem analysis_follows_text (source : String) (frames : Nat) (a : Analysis)
    (analysed : Analysis.ofText source frames = .ok a) :
    (∃ letters : List Char, a.atoms = letters.map String.singleton ∧ letters.Nodup ∧
      (∀ c, c ∈ letters ↔ c ∈ source.toList ∧ NamesAtom c) ∧
      letters.Pairwise fun first second =>
        source.toList.idxOf first < source.toList.idxOf second) ∧
    ∃ tokens, Token.ofText source = .ok tokens ∧
      a.columns.length = tokens.countP (fun t => t.kind = .negation) +
        tokens.countP fun t => t.kind.IsConnective := by
  obtain ⟨f, accepted, walked⟩ := bind_eq_ok analysed
  obtain ⟨_, rfl⟩ := (Analysis.ofFormula_eq_ok_iff a).mp (mapError_eq_ok_iff.mp walked)
  constructor
  · have atoms : f.leaves.eraseDups =
        ((source.toList.filter fun c => NamesAtom c).eraseDups).map String.singleton := by
      rw [leaves_of_ofText accepted]
      exact eraseDups_map (fun _ _ => String.singleton_inj.mp) _
    refine ⟨_, atoms, nodup_eraseDups _, fun c => ?_, pairwise_idxOf_eraseDups _ _⟩
    rw [List.mem_eraseDups, List.mem_filter, decide_eq_true_eq]
  · obtain ⟨tokens, e, scanned, words, rfl⟩ := exists_phrase_of_ofText accepted
    refine ⟨tokens, scanned, ?_⟩
    calc e.tree.parts.length = e.words.countP Word.isOperator := e.length_parts
      _ = (e.words ++ [Word.finish]).countP Word.isOperator := by
          rw [List.countP_append]
          rfl
      _ = tokens.countP fun t => t.word.isOperator := by
          rw [← words, List.countP_map]
          rfl
      _ = _ := Token.countP_isOperator tokens

/-- The conjunction takes all that stands before it as its left side, but the letters keep their
order; the letter `V` is an operator. -/
theorem analysis_follows_text_regrouped :
    let formula := Formula.binary .conjunction
      (.binary .equivalence (.negation (.binary .disjunction (.atom "C") (.atom "A"))) (.atom "B"))
      (.atom "A")
    let source := "-(C V A) <->B^A"
    let a : Analysis := ⟨formula, ["C", "A", "B"], formula.parts⟩
    Analysis.ofText source 1 = .ok a ∧
      (∃ letters : List Char, a.atoms = letters.map String.singleton ∧ letters.Nodup ∧
        (∀ c, c ∈ letters ↔ c ∈ source.toList ∧ NamesAtom c) ∧
        letters.Pairwise fun first second =>
          source.toList.idxOf first < source.toList.idxOf second) ∧
      ∃ tokens, Token.ofText source = .ok tokens ∧
        tokens.countP (fun t => t.kind = .negation) +
          tokens.countP (fun t => t.kind.IsConnective) = 4 := by
  intro formula source a
  have read : Formula.ofText source = .ok formula := by decide +kernel
  have analysed : Analysis.ofText source 1 = .ok a := by
    rw [Analysis.ofText, read]
    rfl
  obtain ⟨letters, tokens, scanned, columns⟩ := analysis_follows_text source 1 a analysed
  exact ⟨analysed, letters, tokens, scanned, columns.symm⟩

end Propositional
