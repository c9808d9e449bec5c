import Propositional.Proofs.Outcome
import Propositional.Proofs.Scanning
import Propositional.Table

/-!
# Stray characters

`lex_error_iff_first_stray`: a scan fails exactly at the first stray character of its text. Where a
token begins depends on all that was scanned before it, but a character is stray or not by itself
and its neighbours. `scan_judges` goes along a scan, which never stands between the shaft and the
tip of an arrow.
-/

set_option autoImplicit false

namespace Propositional

namespace Token

/-- The characters of the texts of tokens and of the spacing between them. -/
def InAlphabet (c : Char) : Prop :=
  c ∈ [' ', '\t', '\r', '\n'] ∨ ('A' ≤ c ∧ c ≤ 'Z') ∨ c ∈ ['v', '^', '(', ')', '-', '<', '>']

instance (c : Char) : Decidable (InAlphabet c) :=
  inferInstanceAs (Decidable (_ ∨ _ ∨ _))

/-- A character between others belongs to no token and is no spacing: it is foreign to formulas, or
a bracket without the rest of its arrow behind it, or a tip without a shaft before it. -/
def IsStray (before : List Char) (c : Char) (rest : List Char) : Prop :=
  ¬ InAlphabet c ∨ (c = '<' ∧ ¬ ['-', '>'] <+: rest) ∨ (c = '>' ∧ ¬ ['-'] <:+ before)

instance (before : List Char) (c : Char) (rest : List Char) : Decidable (IsStray before c rest) :=
  inferInstanceAs (Decidable (_ ∨ _ ∨ _))

def StrayAt (chars : List Char) (place : Nat) : Prop :=
  ∃ c ∈ chars[place]?, IsStray (chars.take place) c (chars.drop (place + 1))

instance (chars : List Char) (place : Nat) : Decidable (StrayAt chars place) :=
  Option.decidableExistsMem chars[place]?

def NamesFirstStray (chars : List Char) (e : LexError) : Prop :=
  chars[e.position]? = some e.char ∧ StrayAt chars e.position ∧
    ∀ place < e.position, ¬ StrayAt chars place

instance (chars : List Char) (e : LexError) : Decidable (NamesFirstStray chars e) :=
  inferInstanceAs (Decidable (_ ∧ _ ∧ ∀ place < e.position, _))

theorem strayAt_length_iff (before : List Char) (c : Char) (rest : List Char) :
    StrayAt (before ++ c :: rest) before.length ↔ IsStray before c rest := by
  simp [StrayAt]

theorem NamesFirstStray.unique {chars : List Char} {e other : LexError}
    (first : NamesFirstStray chars e) (otherFirst : NamesFirstStray chars other) : e = other := by
  obtain ⟨found, stray, clean⟩ := first
  obtain ⟨otherFound, otherStray, otherClean⟩ := otherFirst
  have samePlace : e.position = other.position := by
    rcases Nat.lt_trichotomy e.position other.position with earlier | same | later
    · exact absurd stray (otherClean _ earlier)
    · exact same
    · exact absurd otherStray (clean _ later)
  rw [samePlace] at found
  obtain ⟨char, position⟩ := e
  obtain ⟨otherChar, otherPosition⟩ := other
  cases samePlace
  cases found.symm.trans otherFound
  rfl

/-! ## Characters that stand for themselves -/

theorem kindOfChar_ne_none_iff (c : Char) :
    kindOfChar? c ≠ none ↔ ('A' ≤ c ∧ c ≤ 'Z') ∨ c ∈ ['v', '^', '(', ')', '-'] := by
  unfold kindOfChar?
  split_ifs with isDash isV isCaret inRange isOpening isClosing
  · simp [isDash]
  · rcases isV with rfl | rfl <;> decide
  · simp [isCaret]
  · simp [inRange]
  · simp [isOpening]
  · simp [isClosing]
  · simp_all

theorem stands_iff (c : Char) :
    (isSpacing c = true ∨ kindOfChar? c ≠ none) ↔ InAlphabet c ∧ c ≠ '<' ∧ c ≠ '>' := by
  rw [isSpacing_iff, kindOfChar_ne_none_iff, InAlphabet]
  constructor
  · intro stands
    have noBracket : c ≠ '<' := by rintro rfl; revert stands; decide
    have noTip : c ≠ '>' := by rintro rfl; revert stands; decide
    refine ⟨?_, noBracket, noTip⟩
    simpa [noBracket, noTip] using stands
  · rintro ⟨inAlphabet, noBracket, noTip⟩
    simpa [noBracket, noTip] using inAlphabet

variable {before rest : List Char} {c : Char} {outcome : Except LexError (List Token)}

theorem not_isStray_of_stands (stands : isSpacing c = true ∨ kindOfChar? c ≠ none) :
    ¬ IsStray before c rest := by
  obtain ⟨inAlphabet, noBracket, noTip⟩ := (stands_iff c).mp stands
  simp [IsStray, inAlphabet, noBracket, noTip]

theorem not_isStray_bracket : ¬ IsStray before '<' ('-' :: '>' :: rest) := by
  simp [IsStray, InAlphabet]

theorem not_isStray_tip : ¬ IsStray (before ++ ['-']) '>' rest := by
  simp [IsStray, InAlphabet]

/-! ## What an outcome says of the characters to come -/

/-- The outcome is right about the characters that are left: an error names the first stray one,
and without an error there is none. -/
def Judges (before rest : List Char) : Except LexError (List Token) → Prop
  | .ok _ => ∀ place, before.length ≤ place → ¬ StrayAt (before ++ rest) place
  | .error e =>
      (before ++ rest)[e.position]? = some e.char ∧ StrayAt (before ++ rest) e.position ∧
        ∀ place, before.length ≤ place → place < e.position → ¬ StrayAt (before ++ rest) place

theorem judges_end : Judges before [] (.ok [finish before.length]) := by
  rintro place behind ⟨c, found, _⟩
  rw [List.append_nil, List.getElem?_eq_none behind] at found
  cases found

theorem judges_stray (stray : IsStray before c rest) :
    Judges before (c :: rest) (.error ⟨c, before.length⟩) :=
  ⟨by simp, (strayAt_length_iff before c rest).mpr stray,
    fun _ behind ahead => absurd ahead (Nat.not_lt.mpr behind)⟩

theorem Judges.followedBy (t : Token) (judged : Judges before rest outcome) :
    Judges before rest (t.followedBy outcome) := by
  cases outcome with
  | ok tokens => exact judged
  | error e => exact judged

theorem Judges.over (clean : ¬ IsStray before c rest)
    (judged : Judges (before ++ [c]) rest outcome) : Judges before (c :: rest) outcome := by
  have later : ∀ place, before.length ≤ place → StrayAt (before ++ c :: rest) place →
      (before ++ [c]).length ≤ place := by
    intro place behind stray
    rcases Nat.lt_or_eq_of_le behind with further | rfl
    · rw [List.length_append]
      exact further
    · exact absurd ((strayAt_length_iff before c rest).mp stray) clean
  unfold Judges at judged ⊢
  rw [List.append_assoc, List.singleton_append] at judged
  cases outcome with
  | ok tokens => exact fun place behind stray => judged place (later place behind stray) stray
  | error e =>
      obtain ⟨found, stray, earlier⟩ := judged
      exact ⟨found, stray, fun place behind ahead placeStray =>
        earlier place (later place behind placeStray) ahead placeStray⟩

theorem namesFirstStray_of_judges {chars : List Char} {e : LexError}
    (judged : Judges [] chars (.error e)) : NamesFirstStray chars e :=
  ⟨judged.1, judged.2.1, fun place ahead => judged.2.2 place (Nat.zero_le _) ahead⟩

/-! ## The scan judges right -/

def Settled (before rest : List Char) : Prop :=
  ['-'] <:+ before → NoTip rest

theorem settled_start (chars : List Char) : Settled [] chars := by
  simp [Settled]

theorem settled_of_last (noDash : c ≠ '-') : Settled (before ++ [c]) rest := by
  rintro ⟨_, same⟩
  exact absurd (List.append_inj_right' same rfl) (by simpa using noDash.symm)

theorem isStray_of_not_stands (settled : Settled before (c :: rest))
    (noArrow : c = '<' → ¬ ['-', '>'] <+: rest)
    (stuck : ¬ (isSpacing c = true ∨ kindOfChar? c ≠ none)) : IsStray before c rest := by
  by_cases inAlphabet : InAlphabet c
  · by_cases isBracket : c = '<'
    · exact .inr (.inl ⟨isBracket, noArrow isBracket⟩)
    · by_cases isTip : c = '>'
      · exact .inr (.inr ⟨isTip, fun dash => settled dash rest (by rw [isTip])⟩)
      · exact absurd ((stands_iff c).mpr ⟨inAlphabet, isBracket, isTip⟩) stuck
  · exact .inl inAlphabet

theorem scan_judges (position : Nat) (chars before : List Char)
    (placed : position = before.length) (settled : Settled before chars) :
    Judges before chars (scan position chars) := by
  induction position, chars using scan_induct generalizing before with
  | finish position =>
      subst placed
      rw [scan_end]
      exact judges_end
  | equivalence position rest ih =>
      have later := ih (before ++ ['<'] ++ ['-'] ++ ['>']) (by simp [placed])
        (settled_of_last (by decide))
      have shaft := (later.over not_isStray_tip).over (not_isStray_of_stands (by decide))
      rw [scan_equivalence]
      exact (shaft.over not_isStray_bracket).followedBy _
  | conditional position rest ih =>
      have later := ih (before ++ ['-'] ++ ['>']) (by simp [placed]) (settled_of_last (by decide))
      rw [scan_conditional]
      exact ((later.over not_isStray_tip).over (not_isStray_of_stands (by decide))).followedBy _
  | spacing position c rest spacing ih =>
      have noDash : c ≠ '-' := by rintro rfl; cases spacing
      rw [scan_spacing position spacing]
      exact (ih (before ++ [c]) (by simp [placed]) (settled_of_last noDash)).over
        (not_isStray_of_stands (.inl spacing))
  | single position c rest kind noArrow noSpacing kindEq ih =>
      have known : kindOfChar? c ≠ none := by simp [kindEq]
      have stillSettled : Settled (before ++ [c]) rest := by
        by_cases isDash : c = '-'
        · exact fun _ more same => noArrow.2 more (by rw [isDash, same])
        · exact settled_of_last isDash
      rw [scan_single position noArrow noSpacing kindEq]
      exact ((ih (before ++ [c]) (by simp [placed]) stillSettled).over
        (not_isStray_of_stands (.inr known))).followedBy _
  | stray position c rest noArrow noSpacing noKind =>
      subst placed
      have noTail : c = '<' → ¬ ['-', '>'] <+: rest := by
        rintro isBracket ⟨more, same⟩
        exact noArrow.1 more (by rw [isBracket, ← same]; rfl)
      rw [scan_stray before.length noArrow noSpacing noKind]
      exact judges_stray (isStray_of_not_stands settled noTail (by simp [noSpacing, noKind]))

/-! ## Whole texts -/

theorem judges_ofText (source : String) : Judges [] source.toList (ofText source) :=
  scan_judges 0 source.toList [] rfl (settled_start _)

theorem ofText_succeeds_iff (source : String) :
    (∃ tokens, ofText source = .ok tokens) ↔ ∀ place, ¬ StrayAt source.toList place := by
  have judged := judges_ofText source
  cases outcome : ofText source with
  | ok tokens =>
      rw [outcome] at judged
      exact ⟨fun _ place => judged place (Nat.zero_le _), fun _ => ⟨tokens, rfl⟩⟩
  | error e =>
      rw [outcome] at judged
      constructor
      · rintro ⟨tokens, run⟩
        cases run
      · intro clean
        exact absurd judged.2.1 (clean e.position)

theorem ofText_eq_error_iff (source : String) (e : LexError) :
    ofText source = .error e ↔ NamesFirstStray source.toList e := by
  have judged := judges_ofText source
  cases outcome : ofText source with
  | ok tokens =>
      rw [outcome] at judged
      constructor
      · intro run
        cases run
      · intro first
        exact absurd first.2.1 (judged e.position (Nat.zero_le _))
  | error other =>
      rw [outcome] at judged
      have first := namesFirstStray_of_judges judged
      constructor
      · intro run
        cases run
        exact first
      · intro otherFirst
        rw [first.unique otherFirst]

end Token

/-! ## Errors of reading and tabulating -/

theorem Formula.ofText_eq_lex_iff (source : String) (e : LexError) :
    Formula.ofText source = .error (.lex e) ↔ Token.ofText source = .error e := by
  have injective : Function.Injective FormulaError.lex := fun _ _ same => FormulaError.lex.inj same
  rw [Formula.ofText, bind_eq_error_iff fun tokens => mapError_ne_error nofun,
    mapError_eq_error_iff injective]

theorem Analysis.ofText_eq_lex_iff (source : String) (frames : Nat) (e : LexError) :
    Analysis.ofText source frames = .error (.lex e) ↔ Token.ofText source = .error e := by
  rw [Analysis.ofText, bind_eq_error_iff fun formula => mapError_ne_error nofun,
    Formula.ofText_eq_lex_iff]

theorem Table.ofText_eq_lex_iff (source : String) (frames : Nat) (e : LexError) :
    Table.ofText source frames = .error (.lex e) ↔ Token.ofText source = .error e := by
  rw [Table.ofText, bind_eq_error_iff fun analysis => mapError_ne_error nofun,
    Analysis.ofText_eq_lex_iff]

/-- A text can be scanned exactly when it has no stray character. The first stray character is the
error of the scan, and of everything that goes on from it, whatever else is wrong with the text. -/
theorem lex_error_iff_first_stray (source : String) (frames : Nat) :
    ((∃ tokens, Token.ofText source = .ok tokens) ↔
      ∀ place, ¬ Token.StrayAt source.toList place) ∧
    ∀ e : LexError,
      (Token.ofText source = .error e ↔ Token.NamesFirstStray source.toList e) ∧
      (Formula.ofText source = .error (.lex e) ↔ Token.NamesFirstStray source.toList e) ∧
      (Analysis.ofText source frames = .error (.lex e) ↔
        Token.NamesFirstStray source.toList e) ∧
      (Table.ofText source frames = .error (.lex e) ↔ Token.NamesFirstStray source.toList e) := by
  refine ⟨Token.ofText_succeeds_iff source, fun e => ?_⟩
  have scanned := Token.ofText_eq_error_iff source e
  exact ⟨scanned, (Formula.ofText_eq_lex_iff source e).trans scanned,
    (Analysis.ofText_eq_lex_iff source frames e).trans scanned,
    (Table.ofText_eq_lex_iff source frames e).trans scanned⟩

/-- The group is not closed and the tip has no shaft, but the bracket comes first. -/
example : Token.NamesFirstStray "(A <- B >".toList ⟨'<', 3⟩ := by decide

end Propositional
