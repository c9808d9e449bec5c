import Propositional.Proofs.Scanning.Spacing

/-!
# Tokens and gaps tile their text

`tiles_of_ofText`: every token of a text stands where its position says, no two tokens overlap, and
a character is spacing exactly if it is outside of all tokens. From it `ofText_lossless` gives the
text back from the tokens and the gaps between them, and a text without spacing from the texts of
its tokens alone.
-/

set_option autoImplicit false

namespace Propositional

/-! ## What a lexeme looks like -/

section Lexemes

variable {kind other : Kind} {raw : String}

theorem Lexeme.kind_unique (lexeme : Lexeme kind raw) (otherLexeme : Lexeme other raw) :
    other = kind := by
  have scanned := Token.scan_lexeme 0 kind raw [] lexeme nofun
  rw [Token.scan_lexeme 0 other raw [] otherLexeme nofun] at scanned
  exact congrArg Token.kind (List.cons.inj (Except.ok.inj scanned)).1

theorem Lexeme.not_isSpacing (lexeme : Lexeme kind raw) {c : Char} (member : c ∈ raw.toList) :
    Token.isSpacing c = false := by
  have clean : raw.toList.all (fun c => !Token.isSpacing c) = true := by
    cases lexeme with
    | atom name letter =>
        obtain ⟨letter, rfl, atLeast, _, _⟩ := letter
        simp [Token.isSpacing_letter letter atLeast]
    | _ => decide
  simpa using List.all_eq_true.mp clean c member

end Lexemes

namespace Token

/-! ## Tokens over a text -/

def stop (t : Token) : Int :=
  t.position + t.raw.length

def Covers (t : Token) (place : Nat) : Prop :=
  t.position ≤ place ∧ place < t.stop

/-- The text has the text of the token where the position of the token says. -/
def StandsIn (chars : List Char) (t : Token) : Prop :=
  0 ≤ t.position ∧ (chars.drop t.position.toNat).take t.raw.length = t.raw.toList

/-- The tokens are laid over the characters of a text behind the first `start` of them. -/
structure Tiles (chars : List Char) (start : Nat) (lexemes : List Token) : Prop where
  lexeme : ∀ t ∈ lexemes, Lexeme t.kind t.raw
  standing : ∀ t ∈ lexemes, t.StandsIn chars
  behind : ∀ t ∈ lexemes, start ≤ t.position
  ordered : lexemes.Pairwise fun first second => first.stop ≤ second.position
  spacing_iff : ∀ place c, start ≤ place → chars[place]? = some c →
    (c ∈ [' ', '\t', '\r', '\n'] ↔ ∀ t ∈ lexemes, ¬ t.Covers place)
  noTip : ∀ t ∈ lexemes, t.kind = .negation → chars[t.stop.toNat]? ≠ some '>'

variable {chars : List Char} {start : Nat} {lexemes : List Token}

theorem tiles_end : Tiles chars chars.length [] where
  lexeme := nofun
  standing := nofun
  behind := nofun
  ordered := .nil
  spacing_iff place c behind found := by
    rw [List.getElem?_eq_none behind] at found
    cases found
  noTip := nofun

theorem Tiles.skip {c : Char} (later : Tiles chars (start + 1) lexemes)
    (found : chars[start]? = some c) (spacing : isSpacing c = true) :
    Tiles chars start lexemes where
  lexeme := later.lexeme
  standing := later.standing
  behind t member := by
    have further := later.behind t member
    omega
  ordered := later.ordered
  spacing_iff place other reached here := by
    rcases Nat.lt_or_eq_of_le reached with further | rfl
    · exact later.spacing_iff place other further here
    · cases found.symm.trans here
      refine iff_of_true ((isSpacing_iff c).mp spacing) fun t member covers => ?_
      have further := later.behind t member
      have begun := covers.1
      omega
  noTip := later.noTip

theorem Tiles.cons {kind : Kind} {raw : String}
    (later : Tiles chars (start + raw.length) lexemes) (isLexeme : Lexeme kind raw)
    (here : (chars.drop start).take raw.length = raw.toList)
    (apart : chars[start + raw.length]? ≠ some '>') :
    Tiles chars start (⟨kind, raw, start⟩ :: lexemes) := by
  set t : Token := ⟨kind, raw, start⟩ with tEq
  have stopEq : t.stop = (start + raw.length : Nat) := by simp [stop, tEq]
  refine ⟨List.forall_mem_cons.mpr ⟨isLexeme, later.lexeme⟩,
    List.forall_mem_cons.mpr ⟨⟨by simp [tEq], here⟩, later.standing⟩,
    List.forall_mem_cons.mpr ⟨Int.le_refl _, fun other member => ?_⟩,
    List.pairwise_cons.mpr ⟨fun other member => ?_, later.ordered⟩, ?_,
    List.forall_mem_cons.mpr ⟨fun _ => ?_, later.noTip⟩⟩
  · have further := later.behind other member
    omega
  · rw [stopEq]
    exact later.behind other member
  · intro place c reached found
    rw [List.forall_mem_cons]
    by_cases inside : place < start + raw.length
    · have covers : t.Covers place := ⟨by simp only [tEq]; omega, by rw [stopEq]; omega⟩
      refine iff_of_false (fun spacing => ?_) fun outside => outside.1 covers
      have member : c ∈ raw.toList := by
        rw [← here]
        refine List.mem_of_getElem? (i := place - start) ?_
        rw [List.getElem?_take_of_lt (by omega), List.getElem?_drop, ← found]
        congr 1
        omega
      rw [← isSpacing_iff, isLexeme.not_isSpacing member] at spacing
      cases spacing
    · have outside : ¬ t.Covers place := fun covers => by
        have before := covers.2
        rw [stopEq] at before
        omega
      rw [later.spacing_iff place c (by omega) found]
      exact ⟨fun others => ⟨outside, others⟩, And.right⟩
  · rw [stopEq]
    exact apart

theorem tiles_of_pieces (pieces : List Piece) (legal : ∀ piece ∈ pieces, piece.Legal)
    (before : List Char) :
    ∃ lexemes, Piece.place before.length pieces =
        lexemes ++ [finish (before ++ pieces.flatMap Piece.chars).length] ∧
      Tiles (before ++ pieces.flatMap Piece.chars) before.length lexemes := by
  induction pieces generalizing before with
  | nil =>
      have whole : before ++ [].flatMap Piece.chars = before := List.append_nil before
      rw [whole]
      exact ⟨[], rfl, tiles_end⟩
  | cons piece rest ih =>
      obtain ⟨pieceLegal, restLegal⟩ := List.forall_mem_cons.mp legal
      obtain ⟨lexemes, placed, tiles⟩ := ih restLegal (before ++ piece.chars)
      rw [List.append_assoc, ← List.flatMap_cons, List.length_append] at placed tiles
      cases piece with
      | spacing c => exact ⟨lexemes, placed, tiles.skip (by simp [Piece.chars]) pieceLegal⟩
      | lexeme kind raw =>
          have length : (Piece.lexeme kind raw).chars.length = raw.length := String.length_toList
          rw [length] at placed tiles
          refine ⟨⟨kind, raw, before.length⟩ :: lexemes, congrArg (List.cons _) placed,
            tiles.cons pieceLegal ?_ fun tip => ?_⟩
          · rw [List.drop_left, List.flatMap_cons, ← length]
            exact List.take_left
          · rw [List.flatMap_cons, ← length, ← List.length_append, ← List.append_assoc,
              List.getElem?_append_right (Nat.le_refl _), Nat.sub_self] at tip
            rw [← List.head?_eq_getElem?, List.head?_eq_some_iff] at tip
            obtain ⟨more, restEq⟩ := tip
            exact noTip_of_legal rest restLegal more restEq

/-! ## Recovering the text -/

/-- The stretches of a text in front of tokens. The first one begins behind `start` characters, and
every other one where a token ends. -/
def gaps (chars : List Char) (start : Nat) : List Token → List String
  | [] => []
  | t :: rest =>
      String.ofList ((chars.take t.position.toNat).drop start) :: gaps chars t.stop.toNat rest

def weave : List String → List Token → String
  | gap :: gaps, t :: rest => gap ++ t.raw ++ weave gaps rest
  | _, _ => ""

theorem Tiles.tail {t : Token} (tiles : Tiles chars start (t :: lexemes)) :
    Tiles chars t.stop.toNat lexemes where
  lexeme other member := tiles.lexeme other (List.mem_cons_of_mem _ member)
  standing other member := tiles.standing other (List.mem_cons_of_mem _ member)
  behind other member := by
    have after := (List.pairwise_cons.mp tiles.ordered).1 other member
    have placed := (tiles.standing other (List.mem_cons_of_mem _ member)).1
    omega
  ordered := (List.pairwise_cons.mp tiles.ordered).2
  spacing_iff place c reached found := by
    have first := tiles.behind t (List.mem_cons_self ..)
    have outside : ¬ t.Covers place := fun covers => by
      have before := covers.2
      omega
    have begun : start ≤ place := by
      unfold stop at reached
      omega
    rw [tiles.spacing_iff place c begun found, List.forall_mem_cons]
    exact ⟨And.right, fun others => ⟨outside, others⟩⟩
  noTip other member := tiles.noTip other (List.mem_cons_of_mem _ member)

theorem Tiles.isGap (tiles : Tiles chars start lexemes) {place : Nat}
    (inFront : ∀ t ∈ lexemes, place ≤ t.position) :
    IsGap (String.ofList ((chars.take place).drop start)) := by
  intro c member
  rw [String.toList_ofList] at member
  obtain ⟨i, found⟩ := List.mem_iff_getElem?.mp member
  rw [List.getElem?_drop, List.getElem?_take] at found
  split at found
  · refine (tiles.spacing_iff (start + i) c (Nat.le_add_right ..) found).mpr
      fun t tokenMember covers => ?_
    have begun := covers.1
    have further := inFront t tokenMember
    omega
  · cases found

theorem Tiles.weave_gaps (tiles : Tiles chars start lexemes) :
    (weave (gaps chars start (lexemes ++ [finish chars.length]))
        (lexemes ++ [finish chars.length])).toList = chars.drop start ∧
      ∀ gap ∈ gaps chars start (lexemes ++ [finish chars.length]), IsGap gap := by
  induction lexemes generalizing start with
  | nil =>
      constructor
      · simp [gaps, weave, finish]
      · intro gap member
        rw [List.nil_append, gaps, gaps, List.mem_singleton] at member
        rw [member]
        exact tiles.isGap nofun
  | cons t rest ih =>
      obtain ⟨woven, spaced⟩ := ih tiles.tail
      have placed := tiles.standing t (List.mem_cons_self ..)
      have behind := tiles.behind t (List.mem_cons_self ..)
      have stopEq : t.stop.toNat = t.position.toNat + t.raw.length := by
        have positive := placed.1
        unfold stop
        omega
      rw [List.cons_append, gaps, weave, List.forall_mem_cons]
      refine ⟨?_, tiles.isGap ?_, spaced⟩
      · calc _ = (chars.take t.position.toNat).drop start ++
                ((chars.drop t.position.toNat).take t.raw.length ++ chars.drop t.stop.toNat) := by
              rw [String.toList_append, String.toList_append, String.toList_ofList, woven,
                placed.2, List.append_assoc]
          _ = (chars.take t.position.toNat).drop start ++ chars.drop t.position.toNat := by
              rw [stopEq, ← List.drop_drop, List.take_append_drop]
          _ = chars.drop start := by
              have split : t.position.toNat = start + (t.position.toNat - start) := by omega
              rw [List.drop_take, split, ← List.drop_drop, Nat.add_sub_cancel_left,
                List.take_append_drop]
      · refine List.forall_mem_cons.mpr ⟨by omega, fun other member => ?_⟩
        have after := (List.pairwise_cons.mp tiles.ordered).1 other member
        unfold stop at after
        omega

/-! ## Whole texts -/

theorem tiles_of_ofText {source : String} {tokens : List Token}
    (scanned : ofText source = .ok tokens) :
    ∃ lexemes, tokens = lexemes ++ [finish source.length] ∧ Tiles source.toList 0 lexemes := by
  obtain ⟨pieces, legal, spelt, rfl⟩ := pieces_of_scan 0 source.toList tokens scanned
  obtain ⟨lexemes, placed, tiles⟩ := tiles_of_pieces pieces legal []
  rw [List.nil_append, spelt] at placed tiles
  rw [String.length_toList] at placed
  exact ⟨lexemes, placed, tiles⟩

theorem weave_gaps_of_ofText {source : String} {tokens : List Token}
    (scanned : ofText source = .ok tokens) :
    weave (gaps source.toList 0 tokens) tokens = source ∧
      ∀ gap ∈ gaps source.toList 0 tokens, IsGap gap := by
  obtain ⟨lexemes, rfl, tiles⟩ := tiles_of_ofText scanned
  have whole := tiles.weave_gaps
  rw [String.length_toList] at whole
  exact ⟨String.toList_inj.mp whole.1, whole.2⟩

/-! ## Texts without spacing -/

def Unspaced (source : String) : Prop :=
  ∀ c ∈ source.toList, c ∉ [' ', '\t', '\r', '\n']

instance decidableUnspaced (source : String) : Decidable (Unspaced source) :=
  List.decidableBAll _ _

theorem subset_of_mem_gaps {chars : List Char} {start : Nat} {tokens : List Token} {gap : String}
    (member : gap ∈ gaps chars start tokens) : gap.toList ⊆ chars := by
  induction tokens generalizing start with
  | nil => cases member
  | cons t rest ih =>
      rcases List.mem_cons.mp member with rfl | member
      · rw [String.toList_ofList]
        exact fun c inGap => List.mem_of_mem_take (List.mem_of_mem_drop inGap)
      · exact ih member

theorem weave_of_empty {chars : List Char} {start : Nat} {tokens : List Token}
    (empty : ∀ gap ∈ gaps chars start tokens, gap = "") :
    weave (gaps chars start tokens) tokens = String.join (tokens.map Token.raw) := by
  induction tokens generalizing start with
  | nil => rfl
  | cons t rest ih =>
      obtain ⟨first, others⟩ := List.forall_mem_cons.mp empty
      rw [gaps, weave, ih others, first, String.empty_append, List.map_cons, String.join_cons]

theorem eq_join_of_unspaced {source : String} {tokens : List Token}
    (scanned : ofText source = .ok tokens) (unspaced : Unspaced source) :
    source = String.join (tokens.map Token.raw) := by
  obtain ⟨woven, spaced⟩ := weave_gaps_of_ofText scanned
  rw [weave_of_empty fun gap member => ?_] at woven
  · exact woven.symm
  · refine String.toList_eq_nil_iff.mp (List.eq_nil_iff_forall_not_mem.mpr fun c inGap => ?_)
    exact unspaced c (subset_of_mem_gaps member inGap) (spaced gap member inGap)

/-- A scan loses nothing of a text. The last token, and no other, is the end token at the length of
the text, and the others are laid over the text without overlap. They and the gaps between them give
the text back, and a text without spacing is the only one with the texts of its tokens. -/
theorem ofText_lossless (source : String) (tokens : List Token)
    (scanned : ofText source = .ok tokens) :
    (∃ lexemes, tokens = lexemes ++ [⟨.finish, "", source.length⟩] ∧
      (∀ t ∈ lexemes, t.kind ≠ .finish ∧ ∀ kind, Lexeme kind t.raw ↔ kind = t.kind) ∧
      Tiles source.toList 0 lexemes) ∧
    weave (gaps source.toList 0 tokens) tokens = source ∧
    (∀ gap ∈ gaps source.toList 0 tokens, IsGap gap) ∧
    ∀ (other : String) (others : List Token), ofText other = .ok others →
      Unspaced source → Unspaced other → tokens.map Token.raw = others.map Token.raw →
        source = other := by
  obtain ⟨woven, spaced⟩ := weave_gaps_of_ofText scanned
  refine ⟨?_, woven, spaced, fun other others otherScanned unspaced otherUnspaced same => ?_⟩
  · obtain ⟨lexemes, split, tiles⟩ := tiles_of_ofText scanned
    refine ⟨lexemes, split, fun t member => ?_, tiles⟩
    have lexeme := tiles.lexeme t member
    refine ⟨fun isFinish => ?_, fun kind => ⟨lexeme.kind_unique, fun same => same ▸ lexeme⟩⟩
    rw [isFinish] at lexeme
    cases lexeme
  · rw [eq_join_of_unspaced scanned unspaced, same,
      ← eq_join_of_unspaced otherScanned otherUnspaced]

/-- The sign in front of an arrow stays apart from it, and the gap behind the last token counts.
Without gaps the same signs can be written in one way only. -/
theorem ofText_lossless_signs :
    let source := "A--> \t-(B V<->C)\r\n"
    let tokens : List Token := [⟨.atom, "A", 0⟩, ⟨.negation, "-", 1⟩,
      ⟨.connective .conditional, "->", 2⟩, ⟨.negation, "-", 6⟩, ⟨.opening, "(", 7⟩,
      ⟨.atom, "B", 8⟩, ⟨.connective .disjunction, "V", 10⟩,
      ⟨.connective .equivalence, "<->", 11⟩, ⟨.atom, "C", 14⟩, ⟨.closing, ")", 15⟩,
      ⟨.finish, "", 18⟩]
    let spacing := ["", "", "", " \t", "", "", " ", "", "", "", "\r\n"]
    (ofText source = .ok tokens ∧
      (∃ lexemes, tokens = lexemes ++ [⟨.finish, "", source.length⟩] ∧
        (∀ t ∈ lexemes, t.kind ≠ .finish ∧ ∀ kind, Lexeme kind t.raw ↔ kind = t.kind) ∧
        Tiles source.toList 0 lexemes) ∧
      gaps source.toList 0 tokens = spacing ∧ weave spacing tokens = source ∧
      ∀ gap ∈ spacing, IsGap gap) ∧
    ∀ (other : String) (others : List Token), ofText other = .ok others → Unspaced other →
      others.map Token.raw = ["-", "-", "->", "<->", ""] → "---><->" = other := by
  intro source tokens spacing
  have scanned : ofText source = .ok tokens := by decide +kernel
  have between : gaps source.toList 0 tokens = spacing := by decide +kernel
  have lossless := ofText_lossless source tokens scanned
  rw [between] at lossless
  refine ⟨⟨scanned, lossless.1, between, lossless.2.1, lossless.2.2.1⟩, ?_⟩
  intro other others otherScanned otherUnspaced same
  have written : ofText "---><->" = .ok [⟨.negation, "-", 0⟩, ⟨.negation, "-", 1⟩,
      ⟨.connective .conditional, "->", 2⟩, ⟨.connective .equivalence, "<->", 4⟩,
      ⟨.finish, "", 7⟩] := by decide +kernel
  have unspaced : Unspaced "---><->" := by decide +kernel
  exact (ofText_lossless _ _ written).2.2.2 other others otherScanned unspaced otherUnspaced
    same.symm

end Token

end Propositional
