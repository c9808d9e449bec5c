import Propositional.Proofs.Scanning
import Propositional.Text

/-!
# Spacing between tokens and blanks around a text

`Token.ofText_spell`: tokens that are written with any gaps between them are scanned as they were,
at the places where they were written. `Token.ofText_strip`: a text without the blanks around it is
scanned into the same words.
-/

set_option autoImplicit false

namespace Propositional

/-! ## Tokens with gaps between them -/

namespace Token

def IsGap (gap : String) : Prop :=
  gap.toList ⊆ [' ', '\t', '\r', '\n']

def spell : List (Token × String) → String
  | [] => ""
  | (t, gap) :: rest => t.raw ++ gap ++ spell rest

theorem append_spell_cons (before gap : String) (t : Token) (rest : List (Token × String)) :
    before ++ spell ((t, gap) :: rest) = before ++ t.raw ++ gap ++ spell rest := by
  rw [spell, String.append_assoc, String.append_assoc, String.append_assoc]

def gapPieces (gap : String) : List Piece :=
  gap.toList.map .spacing

def spellPieces (items : List (Token × String)) : List Piece :=
  items.flatMap fun item => .lexeme item.1.kind item.1.raw :: gapPieces item.2

theorem chars_gapPieces (gap : String) : (gapPieces gap).flatMap Piece.chars = gap.toList := by
  rw [gapPieces, List.flatMap_map]
  exact List.flatMap_singleton' gap.toList

theorem chars_spellPieces (items : List (Token × String)) :
    (spellPieces items).flatMap Piece.chars = (spell items).toList := by
  induction items with
  | nil => rfl
  | cons item rest ih =>
      have itemChars : (Piece.lexeme item.1.kind item.1.raw).chars = item.1.raw.toList := rfl
      rw [spellPieces, List.flatMap_cons, List.flatMap_append, List.flatMap_cons, itemChars,
        chars_gapPieces, spell, String.toList_append, String.toList_append, ← ih]
      rfl

theorem legal_gapPieces {gap : String} (spacing : IsGap gap) :
    ∀ piece ∈ gapPieces gap, piece.Legal := by
  intro piece member
  obtain ⟨c, charMember, rfl⟩ := List.mem_map.mp member
  exact (isSpacing_iff c).mpr (spacing charMember)

theorem legal_spellPieces {items : List (Token × String)}
    (lexemes : ∀ item ∈ items, Lexeme item.1.kind item.1.raw)
    (gaps : ∀ item ∈ items, IsGap item.2) : ∀ piece ∈ spellPieces items, piece.Legal := by
  intro piece member
  obtain ⟨item, itemMember, member⟩ := List.mem_flatMap.mp member
  rcases List.mem_cons.mp member with rfl | member
  · exact lexemes item itemMember
  · exact legal_gapPieces (gaps item itemMember) piece member

/-! ## Where the tokens are found -/

theorem place_gapPieces (position : Nat) (gap : String) (rest : List Piece) :
    Piece.place position (gapPieces gap ++ rest) = Piece.place (position + gap.length) rest := by
  rw [gapPieces, ← String.length_toList]
  generalize gap.toList = chars
  induction chars generalizing position with
  | nil => rfl
  | cons c chars ih =>
      rw [List.map_cons, List.cons_append, Piece.place, ih, List.length_cons]
      congr 1
      omega

/-- Behind a text that is already written, every token is placed behind all that was written before
it. -/
theorem place_spellPieces (before : String) (items : List (Token × String)) :
    ∃ tokens, Piece.place before.length (spellPieces items) =
        tokens ++ [finish (before ++ spell items).length] ∧
      List.Forall₂ SameWord (items.map Prod.fst) tokens ∧
      ∀ (i : Nat) (t : Token), tokens[i]? = some t →
        t.position = (before ++ spell (items.take i)).length := by
  induction items generalizing before with
  | nil => exact ⟨[], by simp [spellPieces, Piece.place, spell], .nil, nofun⟩
  | cons item rest ih =>
      obtain ⟨t, gap⟩ := item
      obtain ⟨tokens, placed, words, positions⟩ := ih (before ++ t.raw ++ gap)
      refine ⟨⟨t.kind, t.raw, before.length⟩ :: tokens, ?_, .cons ⟨rfl, rfl⟩ words, ?_⟩
      · have step : Piece.place before.length (spellPieces ((t, gap) :: rest)) =
            ⟨t.kind, t.raw, before.length⟩ ::
              Piece.place (before.length + t.raw.length) (gapPieces gap ++ spellPieces rest) := rfl
        rw [step, place_gapPieces, ← String.length_append, ← String.length_append, placed,
          append_spell_cons]
        rfl
      · intro i other found
        cases i with
        | zero =>
            cases found
            simp [spell]
        | succ i =>
            rw [positions i other found, List.take_succ_cons, append_spell_cons]

/-- Writing tokens with free spacing and scanning the text gives the same tokens, each at the
number of characters in front of it, and an end token at the length of the text. -/
theorem ofText_spell (lead : String) (items : List (Token × String)) (leading : IsGap lead)
    (lexemes : ∀ item ∈ items, Lexeme item.1.kind item.1.raw)
    (gaps : ∀ item ∈ items, IsGap item.2) :
    ∃ tokens, ofText (lead ++ spell items) =
        .ok (tokens ++ [finish (lead ++ spell items).length]) ∧
      List.Forall₂ SameWord (items.map Prod.fst) tokens ∧
      ∀ (i : Nat) (t : Token), tokens[i]? = some t →
        t.position = (lead ++ spell (items.take i)).length := by
  obtain ⟨tokens, placed, words, positions⟩ := place_spellPieces lead items
  refine ⟨tokens, ?_, words, positions⟩
  have legal : ∀ piece ∈ gapPieces lead ++ spellPieces items, piece.Legal := by
    intro piece member
    rcases List.mem_append.mp member with member | member
    · exact legal_gapPieces leading piece member
    · exact legal_spellPieces lexemes gaps piece member
  have scanned := scan_pieces 0 (gapPieces lead ++ spellPieces items) legal
  rw [List.flatMap_append, chars_gapPieces, chars_spellPieces, place_gapPieces, Nat.zero_add,
    placed] at scanned
  rw [ofText, String.toList_append, scanned]

/-- Without a gap, minus signs stay apart from the arrows beside them. -/
theorem ofText_spell_arrows :
    let sign : Token := { kind := .negation, raw := "-" }
    let arrow : Token := { kind := .connective .conditional, raw := "->" }
    let doubleArrow : Token := { kind := .connective .equivalence, raw := "<->" }
    let capital : Token := { kind := .connective .disjunction, raw := "V" }
    let items := [(sign, ""), (sign, ""), (arrow, ""), (doubleArrow, ""), (sign, "\r\n "),
      (capital, "")]
    ∃ tokens, ofText "\t---><->-\r\n V" = .ok (tokens ++ [finish 13]) ∧
      List.Forall₂ SameWord [sign, sign, arrow, doubleArrow, sign, capital] tokens ∧
      ∀ (i : Nat) (t : Token), tokens[i]? = some t →
        t.position = ("\t" ++ spell (items.take i)).length := by
  intro sign arrow doubleArrow capital items
  have leading : IsGap "\t" := by unfold IsGap; decide
  have lexemes : ∀ item ∈ items, Lexeme item.1.kind item.1.raw := by
    simp only [items, List.mem_cons, List.not_mem_nil, or_false]
    rintro item (rfl | rfl | rfl | rfl | rfl | rfl)
    · exact .negation
    · exact .negation
    · exact .conditional
    · exact .equivalence
    · exact .negation
    · exact .capitalDisjunction
  have gaps : ∀ item ∈ items, IsGap item.2 := by unfold IsGap; decide
  have written : "\t" ++ spell items = "\t---><->-\r\n V" := by decide +kernel
  have scanned := ofText_spell "\t" items leading lexemes gaps
  rw [written] at scanned
  exact scanned

end Token

/-! ## Blanks around a text -/

section Lists

variable {α β : Type}

/-- Where items are written as stretches of characters, dropping characters from the front drops
items from the front. -/
theorem dropWhile_flatMap {chars : α → List β} {drops : β → Bool} {dropped : α → Bool}
    {items : List α} (all : ∀ item ∈ items, dropped item = true →
      ∀ c ∈ chars item, drops c = true)
    (stops : ∀ item ∈ items, dropped item = false →
      ∃ c rest, chars item = c :: rest ∧ drops c = false) :
    (items.flatMap chars).dropWhile drops = (items.dropWhile dropped).flatMap chars := by
  induction items with
  | nil => rfl
  | cons item rest ih =>
      obtain ⟨here, later⟩ := List.forall_mem_cons.mp all
      obtain ⟨stopsHere, stopsLater⟩ := List.forall_mem_cons.mp stops
      cases isDropped : dropped item with
      | true =>
          rw [List.flatMap_cons, List.dropWhile_append_of_pos (here isDropped),
            ih later stopsLater, List.dropWhile_cons_of_pos isDropped]
      | false =>
          obtain ⟨c, more, charsEq, kept⟩ := stopsHere isDropped
          rw [List.dropWhile_cons_of_neg (by simp [isDropped]), List.flatMap_cons, charsEq,
            List.cons_append, List.dropWhile_cons_of_neg (by simp [kept])]

theorem filterMap_dropWhile {f : α → Option β} {dropped : α → Bool}
    (silent : ∀ item, dropped item = true → f item = none) (items : List α) :
    (items.dropWhile dropped).filterMap f = items.filterMap f := by
  induction items with
  | nil => rfl
  | cons item rest ih =>
      cases isDropped : dropped item with
      | true =>
          rw [List.dropWhile_cons_of_pos isDropped, ih,
            List.filterMap_cons_none (silent item isDropped)]
      | false => rw [List.dropWhile_cons_of_neg (by simp [isDropped])]

end Lists

/-! ## Blanks and spacing -/

theorem Text.isBlank_of_isSpacing {c : Char} (spacing : Token.isSpacing c = true) :
    Text.isBlank c = true := by
  have known := (Token.isSpacing_iff c).mp spacing
  simp only [List.mem_cons, List.not_mem_nil, or_false] at known
  rcases known with rfl | rfl | rfl | rfl <;> rfl

theorem Text.strip_of_inked {text : String} (inked : ∀ c ∈ text.toList, isBlank c = false) :
    strip text = text := by
  have kept {chars : List Char} (none : ∀ c ∈ chars, isBlank c = false) :
      chars.dropWhile isBlank = chars := by
    cases chars with
    | nil => rfl
    | cons c rest => exact List.dropWhile_cons_of_neg (by simp [none c (List.mem_cons_self ..)])
  have backwards : ∀ c ∈ text.toList.reverse, isBlank c = false :=
    fun c member => inked c (List.mem_reverse.mp member)
  rw [strip, trimBlanks, kept inked, kept backwards, List.reverse_reverse, String.ofList_toList]

theorem Lexeme.not_isBlank {kind : Kind} {raw : String} (lexeme : Lexeme kind raw) {c : Char}
    (member : c ∈ raw.toList) : Text.isBlank c = false := by
  have clean : raw.toList.all (fun c => !Text.isBlank c) = true := by
    cases lexeme with
    | atom name letter =>
        obtain ⟨letter, rfl, atLeast, atMost, _⟩ := letter
        have low : 65 ≤ letter.toNat := atLeast
        have high : letter.toNat ≤ 90 := atMost
        have inked : Text.isBlank letter = false := by
          simp only [Text.isBlank, Bool.or_eq_false_iff, Bool.and_eq_false_iff,
            decide_eq_false_iff_not, beq_eq_false_iff_ne]
          omega
        simp [inked]
    | _ => decide
  simpa using List.all_eq_true.mp clean c member

theorem Lexeme.toList_ne_nil {kind : Kind} {raw : String} (lexeme : Lexeme kind raw) :
    raw.toList ≠ [] := by
  cases lexeme with
  | atom name letter =>
      obtain ⟨letter, rfl, _⟩ := letter
      simp
  | _ => decide

namespace Piece

def isSpacing : Piece → Bool
  | spacing _ => true
  | lexeme _ _ => false

def trim (pieces : List Piece) : List Piece :=
  ((pieces.dropWhile isSpacing).reverse.dropWhile isSpacing).reverse

theorem mem_of_mem_trim {pieces : List Piece} {piece : Piece} (member : piece ∈ trim pieces) :
    piece ∈ pieces := by
  rw [trim, List.mem_reverse] at member
  have inside := List.mem_reverse.mp ((List.dropWhile_sublist _).mem member)
  exact (List.dropWhile_sublist _).mem inside

theorem filterMap_word_trim (pieces : List Piece) :
    (trim pieces).filterMap word? = pieces.filterMap word? := by
  have silent : ∀ piece, isSpacing piece = true → word? piece = none := by
    intro piece spacing
    cases piece with
    | spacing c => rfl
    | lexeme kind raw => cases spacing
  rw [trim, List.filterMap_reverse, filterMap_dropWhile silent, List.filterMap_reverse,
    List.reverse_reverse, filterMap_dropWhile silent]

theorem isBlank_of_mem_chars {piece : Piece} (legal : piece.Legal) {c : Char}
    (member : c ∈ piece.chars) : Text.isBlank c = piece.isSpacing := by
  cases piece with
  | spacing other =>
      rw [List.mem_singleton.mp member]
      exact Text.isBlank_of_isSpacing legal
  | lexeme kind raw => exact Lexeme.not_isBlank legal member

theorem dropWhile_isBlank {reading : Piece → List Char} {pieces : List Piece}
    (legal : ∀ piece ∈ pieces, piece.Legal) (reads : ∀ piece, (reading piece).Perm piece.chars) :
    (pieces.flatMap reading).dropWhile Text.isBlank =
      (pieces.dropWhile isSpacing).flatMap reading := by
  refine dropWhile_flatMap (fun piece member spacing c inside => ?_)
    fun piece member noSpacing => ?_
  · rw [isBlank_of_mem_chars (legal piece member) ((reads piece).mem_iff.mp inside), spacing]
  · cases piece with
    | spacing c => cases noSpacing
    | lexeme kind raw =>
        have lexeme : Lexeme kind raw := legal _ member
        have perm : (reading (.lexeme kind raw)).Perm raw.toList := reads (.lexeme kind raw)
        cases readEq : reading (.lexeme kind raw) with
        | nil =>
            rw [readEq] at perm
            exact absurd perm.nil_eq.symm lexeme.toList_ne_nil
        | cons c rest =>
            rw [readEq] at perm
            exact ⟨c, rest, rfl, lexeme.not_isBlank (perm.mem_iff.mp (List.mem_cons_self ..))⟩

theorem trimBlanks_chars {pieces : List Piece} (legal : ∀ piece ∈ pieces, piece.Legal) :
    Text.trimBlanks (pieces.flatMap chars) = (trim pieces).flatMap chars := by
  have backwards : ∀ piece ∈ (pieces.dropWhile isSpacing).reverse, piece.Legal := by
    intro piece member
    exact legal piece ((List.dropWhile_sublist _).mem (List.mem_reverse.mp member))
  have again : List.reverse ∘ List.reverse ∘ chars = chars :=
    funext fun piece => List.reverse_reverse piece.chars
  have reversed : ∀ piece, ((List.reverse ∘ chars) piece).Perm piece.chars :=
    fun piece => piece.chars.reverse_perm
  rw [Text.trimBlanks, dropWhile_isBlank legal fun piece => .refl _, List.reverse_flatMap,
    dropWhile_isBlank backwards reversed, List.reverse_flatMap, again, trim]

end Piece

theorem Token.ofText_strip {source : String} {tokens : List Token}
    (scanned : ofText source = .ok tokens) :
    ∃ others, ofText (Text.strip source) = .ok others ∧
      others.map word = tokens.map word := by
  obtain ⟨pieces, legal, spelt, rfl⟩ := pieces_of_scan 0 source.toList tokens scanned
  have kept : ∀ piece ∈ Piece.trim pieces, piece.Legal := fun piece member =>
    legal piece (Piece.mem_of_mem_trim member)
  refine ⟨Piece.place 0 (Piece.trim pieces), ?_, ?_⟩
  · rw [ofText, Text.strip, String.toList_ofList, ← spelt, Piece.trimBlanks_chars legal]
    exact scan_pieces 0 _ kept
  · rw [Piece.map_word_place, Piece.map_word_place, Piece.filterMap_word_trim]

end Propositional
