import Propositional.Proofs.Grammar.Words
import Propositional.Token

/-!
# Scanning spaced lexemes

`scan_pieces`: a text made of lexemes, with spacing wherever one likes, is scanned into those
lexemes. Two lexemes side by side are never taken for another one, because the only lexeme that
begins another is the negation, and no lexeme begins with the tip of an arrow. `pieces_of_scan`:
every text that is scanned is made so.
-/

set_option autoImplicit false

namespace Propositional

def IsLetter (name : String) : Prop :=
  ∃ c : Char, name = String.singleton c ∧ 'A' ≤ c ∧ c ≤ 'Z' ∧ c ≠ 'V'

def capitals : List String :=
  (List.range 26).map fun i => String.singleton (Char.ofNat (65 + i))

theorem IsLetter.mem_capitals {name : String} (letter : IsLetter name) : name ∈ capitals := by
  obtain ⟨c, rfl, above, below, _⟩ := letter
  have low : 65 ≤ c.toNat := above
  have high : c.toNat ≤ 90 := below
  refine List.mem_map.mpr ⟨c.toNat - 65, List.mem_range.mpr (by omega), ?_⟩
  rw [Nat.add_sub_cancel' low, Char.ofNat_toNat]

namespace Formula

/-- Every node is concrete and every atom is named by a letter. -/
def Lettered : Formula → Prop
  | atom name => IsLetter name
  | negation operand => operand.Lettered
  | binary _ left right => left.Lettered ∧ right.Lettered
  | unspecified _ _ => False
  | hole => False

theorem concrete_of_lettered (f : Formula) (lettered : f.Lettered) : f.Concrete := by
  induction f with
  | atom name => trivial
  | negation operand ih => exact ih lettered
  | binary c left right leftIh rightIh => exact ⟨leftIh lettered.1, rightIh lettered.2⟩
  | unspecified left right => exact lettered
  | hole => exact lettered

theorem letter_of_mem_leaves {f : Formula} (lettered : f.Lettered) {name : String}
    (member : name ∈ f.leaves) : IsLetter name := by
  induction f with
  | atom other => exact List.mem_singleton.mp member ▸ lettered
  | negation operand ih => exact ih lettered member
  | binary c left right leftIh rightIh =>
      rcases List.mem_append.mp member with member | member
      · exact leftIh lettered.1 member
      · exact rightIh lettered.2 member
  | unspecified left right => exact lettered.elim
  | hole => exact lettered.elim

end Formula

inductive Lexeme : Kind → String → Prop where
  | equivalence : Lexeme (.connective .equivalence) "<->"
  | conditional : Lexeme (.connective .conditional) "->"
  | negation : Lexeme .negation "-"
  | disjunction : Lexeme (.connective .disjunction) "v"
  | capitalDisjunction : Lexeme (.connective .disjunction) "V"
  | conjunction : Lexeme (.connective .conjunction) "^"
  | atom (name : String) (letter : IsLetter name) : Lexeme .atom name
  | opening : Lexeme .opening "("
  | closing : Lexeme .closing ")"

theorem lexeme_symbol (c : Connective) : Lexeme (.connective c) c.symbol := by
  cases c with
  | conjunction => exact .conjunction
  | disjunction => exact .disjunction
  | conditional => exact .conditional
  | equivalence => exact .equivalence

/-- A part of a text: a character that separates, or a lexeme. -/
inductive Piece where
  | spacing (c : Char)
  | lexeme (kind : Kind) (raw : String)

namespace Piece

def chars : Piece → List Char
  | spacing c => [c]
  | lexeme _ raw => raw.toList

def word? : Piece → Option Word
  | spacing _ => none
  | lexeme kind raw => some (Token.word ⟨kind, raw, 0⟩)

def Legal : Piece → Prop
  | spacing c => Token.isSpacing c = true
  | lexeme kind raw => Lexeme kind raw

def place (position : Nat) : List Piece → List Token
  | [] => [Token.finish position]
  | spacing _ :: rest => place (position + 1) rest
  | lexeme kind raw :: rest => ⟨kind, raw, position⟩ :: place (position + raw.length) rest

theorem map_word_place (position : Nat) (pieces : List Piece) :
    (place position pieces).map Token.word = pieces.filterMap word? ++ [.finish] := by
  induction pieces generalizing position with
  | nil => rfl
  | cons piece rest ih =>
      cases piece with
      | spacing c => exact ih (position + 1)
      | lexeme kind raw =>
          rw [place, List.map_cons, ih (position + raw.length)]
          rfl

end Piece

namespace Token

/-! ## One step of the scan -/

theorem isSpacing_iff (c : Char) : isSpacing c = true ↔ c ∈ [' ', '\t', '\r', '\n'] := by
  simp [isSpacing, or_assoc]

def NoTip (rest : List Char) : Prop :=
  ∀ more, rest ≠ '>' :: more

theorem noArrow_cons {c : Char} {rest : List Char} (noBracket : c ≠ '<')
    (noTip : c = '-' → NoTip rest) : NoArrow (c :: rest) := by
  constructor
  · intro more same
    exact noBracket (List.cons.inj same).1
  · intro more same
    obtain ⟨isDash, restEq⟩ := List.cons.inj same
    exact noTip isDash more restEq

theorem kindOfChar_letter (c : Char) (atLeast : 'A' ≤ c) (atMost : c ≤ 'Z') (noV : c ≠ 'V') :
    kindOfChar? c = some .atom := by
  have noDash : c ≠ '-' := by rintro rfl; exact absurd atLeast (by decide)
  have noSmallV : c ≠ 'v' := by rintro rfl; exact absurd atMost (by decide)
  have noCaret : c ≠ '^' := by rintro rfl; exact absurd atMost (by decide)
  simp [kindOfChar?, noDash, noSmallV, noCaret, noV, atLeast, atMost]

theorem isSpacing_letter (c : Char) (atLeast : 'A' ≤ c) : isSpacing c = false := by
  have noBlank : c ≠ ' ' := by rintro rfl; exact absurd atLeast (by decide)
  have noTab : c ≠ '\t' := by rintro rfl; exact absurd atLeast (by decide)
  have noReturn : c ≠ '\r' := by rintro rfl; exact absurd atLeast (by decide)
  have noNewline : c ≠ '\n' := by rintro rfl; exact absurd atLeast (by decide)
  simp [isSpacing, noBlank, noTab, noReturn, noNewline]

theorem scan_letter (position : Nat) (c : Char) (rest : List Char) (atLeast : 'A' ≤ c)
    (atMost : c ≤ 'Z') (noV : c ≠ 'V') :
    scan position (c :: rest) =
      followedBy ⟨.atom, String.singleton c, position⟩ (scan (position + 1) rest) := by
  have noDash : c ≠ '-' := by rintro rfl; exact absurd atLeast (by decide)
  have noBracket : c ≠ '<' := by rintro rfl; exact absurd atLeast (by decide)
  have noArrow : NoArrow (c :: rest) := noArrow_cons noBracket fun isDash => absurd isDash noDash
  exact scan_single position noArrow (by simp [isSpacing_letter c atLeast])
    (kindOfChar_letter c atLeast atMost noV)

/-- A lexeme is scanned as itself, unless the tip of an arrow follows. -/
theorem scan_lexeme (position : Nat) (kind : Kind) (raw : String) (rest : List Char)
    (lexeme : Lexeme kind raw) (noTip : NoTip rest) :
    scan position (raw.toList ++ rest) =
      followedBy ⟨kind, raw, position⟩ (scan (position + raw.length) rest) := by
  have noArrow {c : Char} (noBracket : c ≠ '<') : NoArrow (c :: rest) :=
    noArrow_cons noBracket fun _ => noTip
  cases lexeme with
  | equivalence => exact scan_equivalence position rest
  | conditional => exact scan_conditional position rest
  | negation => exact scan_single position (noArrow (by decide)) (by decide) rfl
  | disjunction => exact scan_single position (noArrow (by decide)) (by decide) rfl
  | capitalDisjunction => exact scan_single position (noArrow (by decide)) (by decide) rfl
  | conjunction => exact scan_single position (noArrow (by decide)) (by decide) rfl
  | opening => exact scan_single position (noArrow (by decide)) (by decide) rfl
  | closing => exact scan_single position (noArrow (by decide)) (by decide) rfl
  | atom name letter =>
      obtain ⟨c, rfl, atLeast, atMost, noV⟩ := letter
      rw [String.toList_singleton, String.length_singleton]
      exact scan_letter position c rest atLeast atMost noV

/-! ## Whole texts -/

theorem noTip_of_lexeme {kind : Kind} {raw : String} (lexeme : Lexeme kind raw)
    (rest : List Char) : NoTip (raw.toList ++ rest) := by
  intro more same
  cases lexeme with
  | atom name letter =>
      obtain ⟨c, rfl, atLeast, _, _⟩ := letter
      rw [String.toList_singleton] at same
      rw [(List.cons.inj same).1] at atLeast
      exact absurd atLeast (by decide)
  | _ => exact absurd (List.cons.inj same).1 (by decide)

theorem noTip_of_legal (pieces : List Piece) (legal : ∀ piece ∈ pieces, piece.Legal) :
    NoTip (pieces.flatMap Piece.chars) := by
  cases pieces with
  | nil => exact nofun
  | cons piece rest =>
      have pieceLegal := legal piece (List.mem_cons_self ..)
      rw [List.flatMap_cons]
      cases piece with
      | spacing c =>
          intro more same
          have spacing : isSpacing c = true := pieceLegal
          rw [(List.cons.inj same).1] at spacing
          exact absurd spacing (by decide)
      | lexeme kind raw => exact noTip_of_lexeme pieceLegal _

theorem scan_pieces (position : Nat) (pieces : List Piece)
    (legal : ∀ piece ∈ pieces, piece.Legal) :
    scan position (pieces.flatMap Piece.chars) = .ok (Piece.place position pieces) := by
  induction pieces generalizing position with
  | nil => rfl
  | cons piece rest ih =>
      obtain ⟨pieceLegal, restLegal⟩ := List.forall_mem_cons.mp legal
      rw [List.flatMap_cons]
      cases piece with
      | spacing c =>
          rw [Piece.chars, List.singleton_append, scan_spacing position pieceLegal,
            ih (position + 1) restLegal]
          rfl
      | lexeme kind raw =>
          rw [Piece.chars, scan_lexeme position kind raw _ pieceLegal
            (noTip_of_legal rest restLegal), ih (position + raw.length) restLegal]
          rfl

/-- However a text is cut into spacing and lexemes, the words are the same. -/
theorem words_unique (pieces others : List Piece) (legal : ∀ piece ∈ pieces, piece.Legal)
    (othersLegal : ∀ piece ∈ others, piece.Legal)
    (same : pieces.flatMap Piece.chars = others.flatMap Piece.chars) :
    pieces.filterMap Piece.word? = others.filterMap Piece.word? := by
  have scanned := scan_pieces 0 pieces legal
  rw [same, scan_pieces 0 others othersLegal] at scanned
  have placedWords := Piece.map_word_place 0 pieces
  rw [← Except.ok.inj scanned, Piece.map_word_place] at placedWords
  exact (List.append_inj_left' placedWords rfl).symm

/-! ## What a scan returns -/

theorem lexeme_of_kindOfChar (c : Char) (kind : Kind) (kindEq : kindOfChar? c = some kind) :
    Lexeme kind (String.singleton c) := by
  unfold kindOfChar? at kindEq
  split at kindEq
  · rename_i isDash
    cases kindEq
    exact isDash ▸ .negation
  split at kindEq
  · rename_i isV
    cases kindEq
    rcases isV with rfl | rfl
    · exact .disjunction
    · exact .capitalDisjunction
  rename_i noV
  split at kindEq
  · rename_i isCaret
    cases kindEq
    exact isCaret ▸ .conjunction
  split at kindEq
  · rename_i inRange
    cases kindEq
    exact .atom _ ⟨c, rfl, inRange.1, inRange.2, fun isV => noV (.inr isV)⟩
  split at kindEq
  · rename_i isOpening
    cases kindEq
    exact isOpening ▸ .opening
  split at kindEq
  · rename_i isClosing
    cases kindEq
    exact isClosing ▸ .closing
  · cases kindEq

def Lexical (tokens : List Token) : Prop :=
  ∃ (lexemes : List Token) (position : Int), tokens = lexemes ++ [finish position] ∧
    ∀ t ∈ lexemes, Lexeme t.kind t.raw

theorem Lexical.cons {t : Token} {tokens : List Token} (head : Lexeme t.kind t.raw)
    (tail : Lexical tokens) : Lexical (t :: tokens) := by
  obtain ⟨lexemes, position, rfl, all⟩ := tail
  refine ⟨t :: lexemes, position, rfl, fun other member => ?_⟩
  rcases List.mem_cons.mp member with rfl | member
  · exact head
  · exact all other member

theorem lexical_place (position : Nat) (pieces : List Piece)
    (legal : ∀ piece ∈ pieces, piece.Legal) : Lexical (Piece.place position pieces) := by
  induction pieces generalizing position with
  | nil => exact ⟨[], position, rfl, nofun⟩
  | cons piece rest ih =>
      obtain ⟨pieceLegal, restLegal⟩ := List.forall_mem_cons.mp legal
      cases piece with
      | spacing c => exact ih (position + 1) restLegal
      | lexeme kind raw => exact (ih (position + raw.length) restLegal).cons pieceLegal

theorem followedBy_eq_ok {t : Token} {rest : Except LexError (List Token)} {tokens : List Token}
    (run : followedBy t rest = .ok tokens) : ∃ later, rest = .ok later ∧ tokens = t :: later := by
  cases rest with
  | error cause => cases run
  | ok later => exact ⟨later, rfl, (Except.ok.inj run).symm⟩

/-- A text that is scanned can be cut into spacing and lexemes, and the tokens are the lexemes at
their places. -/
theorem pieces_of_scan (position : Nat) (chars : List Char) (tokens : List Token)
    (scanned : scan position chars = .ok tokens) :
    ∃ pieces : List Piece, (∀ piece ∈ pieces, piece.Legal) ∧
      pieces.flatMap Piece.chars = chars ∧ tokens = Piece.place position pieces := by
  induction position, chars using scan_induct generalizing tokens with
  | finish position =>
      rw [scan_end] at scanned
      cases scanned
      exact ⟨[], nofun, rfl, rfl⟩
  | equivalence position rest ih =>
      rw [scan_equivalence] at scanned
      obtain ⟨later, restScanned, rfl⟩ := followedBy_eq_ok scanned
      obtain ⟨pieces, legal, rfl, rfl⟩ := ih later restScanned
      exact ⟨.lexeme _ "<->" :: pieces, List.forall_mem_cons.mpr ⟨.equivalence, legal⟩, rfl, rfl⟩
  | conditional position rest ih =>
      rw [scan_conditional] at scanned
      obtain ⟨later, restScanned, rfl⟩ := followedBy_eq_ok scanned
      obtain ⟨pieces, legal, rfl, rfl⟩ := ih later restScanned
      exact ⟨.lexeme _ "->" :: pieces, List.forall_mem_cons.mpr ⟨.conditional, legal⟩, rfl, rfl⟩
  | spacing position c rest spacing ih =>
      rw [scan_spacing position spacing] at scanned
      obtain ⟨pieces, legal, rfl, rfl⟩ := ih tokens scanned
      exact ⟨.spacing c :: pieces, List.forall_mem_cons.mpr ⟨spacing, legal⟩, rfl, rfl⟩
  | single position c rest kind noArrow noSpacing kindEq ih =>
      rw [scan_single position noArrow noSpacing kindEq] at scanned
      obtain ⟨later, restScanned, rfl⟩ := followedBy_eq_ok scanned
      obtain ⟨pieces, legal, rfl, rfl⟩ := ih later restScanned
      have lexeme := lexeme_of_kindOfChar c kind kindEq
      refine ⟨.lexeme kind (String.singleton c) :: pieces,
        List.forall_mem_cons.mpr ⟨lexeme, legal⟩, ?_, ?_⟩
      · rw [List.flatMap_cons, Piece.chars, String.toList_singleton, List.singleton_append]
      · rw [Piece.place, String.length_singleton]
  | stray position c rest noArrow noSpacing noKind =>
      rw [scan_stray position noArrow noSpacing noKind] at scanned
      cases scanned

theorem lexical_of_scan (position : Nat) (chars : List Char) :
    ∀ tokens, scan position chars = .ok tokens → Lexical tokens := by
  intro tokens scanned
  obtain ⟨pieces, legal, _, rfl⟩ := pieces_of_scan position chars tokens scanned
  exact lexical_place position pieces legal

end Token

end Propositional
