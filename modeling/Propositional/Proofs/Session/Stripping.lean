import Propositional.Proofs.Reading.Attention
import Propositional.Proofs.Scanning.Spacing
import Propositional.Proofs.Scanning.Stray
import Propositional.Proofs.Session.History

/-!
# A line and the formula in it

A session removes the blanks around a line and looks for reserved words before it shows the table of
a formula. `handle_like_showTable` compares this with showing the line as it is:
`Table.ofText_strip` gives the table or the message of a text without the blanks around it, and
`not_reserved` the texts that are no reserved word. That the table is built a frame further in
matters above 401 levels, as in `handle_escapes_shown`.
-/

set_option autoImplicit false

namespace Propositional

variable {source : String}

/-! ## Texts without the blanks around them -/

theorem Formula.ofText_strip {tokens : List Token} (scanned : Token.ofText source = .ok tokens) :
    Formula.ofText (Text.strip source) = Formula.ofText source ∨
      ∃ cause other, Formula.ofText source = .error (.parse cause) ∧
        Formula.ofText (Text.strip source) = .error (.parse other) ∧
        other.message = cause.message := by
  obtain ⟨others, stripped, sameWords⟩ := Token.ofText_strip scanned
  rw [ofText_of_scan source tokens scanned, ofText_of_scan _ others stripped]
  have agree := ofTokens_agree (Token.alike_of_words sameWords)
  generalize Formula.ofTokens (tokens.map some) = outcome at agree ⊢
  generalize Formula.ofTokens (others.map some) = other at agree ⊢
  cases agree with
  | ok same => exact .inl (by rw [same])
  | @error other cause same => exact .inr ⟨cause, other, rfl, rfl, same.1⟩

section Tables

variable {frames : Nat}

theorem Table.ofText_of_formula {other : String}
    (same : Formula.ofText other = Formula.ofText source) :
    Table.ofText other frames = Table.ofText source frames := by
  rw [Table.ofText, Analysis.ofText, same]
  rfl

theorem Table.ofText_of_parse {cause : ParseError}
    (refused : Formula.ofText source = .error (.parse cause)) :
    Table.ofText source frames = .error (.parse cause) := by
  rw [Table.ofText, Analysis.ofText, refused]
  rfl

variable (frames) in
theorem Table.ofText_strip {tokens : List Token} (scanned : Token.ofText source = .ok tokens) :
    Table.ofText (Text.strip source) frames = Table.ofText source frames ∨
      ∃ cause other, Table.ofText source frames = .error (.parse cause) ∧
        Table.ofText (Text.strip source) frames = .error (.parse other) ∧
        other.message = cause.message := by
  rcases Formula.ofText_strip scanned with same | ⟨cause, other, refused, stripped, sameMessage⟩
  · exact .inl (ofText_of_formula same)
  · exact .inr ⟨cause, other, ofText_of_parse refused, ofText_of_parse stripped, sameMessage⟩

theorem Table.exists_scan (unlexed : ∀ e, Table.ofText source frames ≠ .error (.lex e)) :
    ∃ tokens, Token.ofText source = .ok tokens := by
  cases scanned : Token.ofText source with
  | ok tokens => exact ⟨tokens, rfl⟩
  | error e => exact absurd ((Table.ofText_eq_lex_iff source frames e).mpr scanned) (unlexed e)

theorem Table.ofText_strip_of_ok {t : Table} (tabulated : Table.ofText source frames = .ok t) :
    Table.ofText (Text.strip source) frames = .ok t := by
  have unlexed (e : LexError) : Table.ofText source frames ≠ .error (.lex e) := by simp [tabulated]
  obtain ⟨tokens, scanned⟩ := exists_scan unlexed
  rcases ofText_strip frames scanned with same | ⟨cause, _, refused, _⟩
  · rw [same, tabulated]
  · rw [tabulated] at refused
    cases refused

theorem Table.ofText_strip_of_parse {cause : ParseError}
    (refused : Table.ofText source frames = .error (.parse cause)) :
    ∃ other, other.message = cause.message ∧
      Table.ofText (Text.strip source) frames = .error (.parse other) := by
  have unlexed (e : LexError) : Table.ofText source frames ≠ .error (.lex e) := by simp [refused]
  obtain ⟨tokens, scanned⟩ := exists_scan unlexed
  rcases ofText_strip frames scanned with
    same | ⟨found, other, foundRefused, stripped, sameMessage⟩
  · exact ⟨cause, rfl, same.trans refused⟩
  · rw [refused] at foundRefused
    cases foundRefused
    exact ⟨other, sameMessage, stripped⟩

/-- What the reader refuses for one caller it refuses for a caller that holds more frames. -/
theorem Table.ofText_eq_parse_mono {cause : ParseError} {more : Nat} (le : frames ≤ more)
    (refused : Table.ofText source frames = .error (.parse cause)) :
    Table.ofText source more = .error (.parse cause) := by
  cases read : Formula.ofText source with
  | error other =>
      rw [Table.ofText, Analysis.ofText, read] at refused ⊢
      exact refused
  | ok f =>
      rcases Nat.lt_or_ge (gatheringLevels (frames + 2)) f.height with tall | low
      · rw [ofText_of_tall read frames tall] at refused
        have fewer : gatheringLevels (more + 2) ≤ gatheringLevels (frames + 2) :=
          evaluationLevels_anti (Nat.add_le_add_right le 3)
        rw [ofText_of_tall read more (Nat.lt_of_le_of_lt fewer tall), refused]
      · cases ofText_error_of_gathered read frames low refused

theorem Grid.ofText_eq_parse_iff {cause : ParseError} :
    Grid.ofText source frames = .error (.parse cause) ↔
      Table.ofText source frames = .error (.parse cause) := by
  refine ⟨fun refused => ?_, Grid.ofText_of_error⟩
  cases tabulated : Table.ofText source frames with
  | ok t =>
      obtain ⟨lines, printed⟩ := Table.exists_lines tabulated
      rw [Grid.ofText_of_ok tabulated printed] at refused
      cases refused
  | error found =>
      rw [Grid.ofText_of_error tabulated] at refused
      cases refused
      rfl

end Tables

namespace Session

variable {frames : Nat}

/-! ## Reserved words -/

/-- The reserved words have letters that begin no token. -/
theorem not_reserved (unlexed : ∀ e, Table.ofText source frames ≠ .error (.lex e))
    (filled : source ≠ "") : source ∉ ["", "help", "exit"] := by
  intro reserved
  simp only [List.mem_cons, List.not_mem_nil, or_false] at reserved
  rcases reserved with rfl | rfl | rfl
  · exact filled rfl
  · exact unlexed ⟨'h', 0⟩ ((Table.ofText_eq_lex_iff _ _ _).mpr (by decide +kernel))
  · exact unlexed ⟨'e', 0⟩ ((Table.ofText_eq_lex_iff _ _ _).mpr (by decide +kernel))

theorem handle_formula (s : Session) {line : String}
    (isFormula : Text.strip line ∉ ["", "help", "exit"]) :
    s.handle frames line =
      ⟨(s.showTable (frames + 1) (Text.strip line)).result.map fun accepted =>
          if !accepted && s.exitOnError then some 1 else none,
        (s.showTable (frames + 1) (Text.strip line)).session,
        (s.showTable (frames + 1) (Text.strip line)).events⟩ := by
  rcases handle_cases frames line with ⟨content, _⟩ | ⟨content, _⟩ | ⟨content, _⟩ | ⟨_, handled⟩
  · simp [content] at isFormula
  · simp [content] at isFormula
  · simp [content] at isFormula
  · exact handled s

/-! ## Lines and the formulas in them -/

theorem exists_table_of_shown {s : Session} (shown : (s.showTable frames source).result = .ok true) :
    ∃ t, Table.ofText source (frames + 1) = .ok t := by
  cases tabulated : Table.ofText source (frames + 1) with
  | ok t => exact ⟨t, rfl⟩
  | error cause =>
      have failed := Grid.ofText_of_error tabulated
      by_cases refusal : cause.IsRefusal
      · rw [showTable_of_refusal failed refusal] at shown
        cases shown
      · rw [showTable_of_escape failed refusal] at shown
        cases shown

theorem printed_showTable_of_ok {s : Session} {lines : List String}
    (found : Grid.ofText source (frames + 1) = .ok lines) :
    Event.printed (s.showTable frames source).events = String.join (lines.map (· ++ "\n")) := by
  rw [showTable_of_ok found, Event.printed, ← Event.lines, Event.lines_append,
    Event.lines_map_record, Event.lines_map_line, List.nil_append]

theorem printed_eq_empty {events : List Event} (silent : Event.lines events = []) :
    Event.printed events = "" := by
  rw [Event.printed, ← Event.lines, silent]
  rfl

section Handle

variable (s : Session) {line : String} (isFormula : Text.strip line ∉ ["", "help", "exit"])

include isFormula

theorem handle_of_shown {lines : List String}
    (found : Grid.ofText (Text.strip line) (frames + 2) = .ok lines) :
    (s.handle frames line).result = .ok none ∧ (s.handle frames line).session = s ∧
      Event.printed (s.handle frames line).events = String.join (lines.map (· ++ "\n")) := by
  rw [handle_formula s isFormula]
  dsimp only
  refine ⟨?_, ?_, printed_showTable_of_ok found⟩
  · rw [showTable_of_ok found]
    rfl
  · rw [showTable_of_ok found]

theorem handle_of_refusal {cause : FormulaError}
    (refused : Table.ofText (Text.strip line) (frames + 2) = .error cause)
    (refusal : cause.IsRefusal) :
    (s.handle frames line).result = .ok (if s.exitOnError then some 1 else none) ∧
      (s.handle frames line).session = { s with failures := s.failures + 1 } ∧
      Event.printed (s.handle frames line).events = "" ∧
      (Event.records (s.handle frames line).events).filter (Record.reaches .error) =
        [.ofLevel .error cause.message] := by
  obtain ⟨unshown, counted, silent, reason⟩ := @refusal_only s _ _ _ refused refusal
  rw [handle_formula s isFormula]
  dsimp only
  refine ⟨?_, counted, printed_eq_empty silent, reason⟩
  rw [unshown]
  cases s.exitOnError <;> rfl

end Handle

/-- A session takes a line for the formula that is in it. If the whole line can be shown as a table,
then it is no reserved word without the blanks around it, and has the same table and grid; up to 401
levels, handling it prints the same text and changes nothing. If the reader refuses the whole line
and there is more than blanks in it, then handling it counts one failure and records the same
message. -/
theorem handle_like_showTable (s : Session) (frames : Nat) (line : String) :
    ((s.showTable frames line).result = .ok true →
      Text.strip line ∉ ["", "help", "exit"] ∧
      (∃ t lines, Table.ofText line (frames + 1) = .ok t ∧
        Table.ofText (Text.strip line) (frames + 1) = .ok t ∧
        Grid.ofText line (frames + 1) = .ok lines ∧
        Grid.ofText (Text.strip line) (frames + 1) = .ok lines) ∧
      (s.showTable frames (Text.strip line)).result = .ok true ∧
      (frames ≤ callerLimit → Formula.Low (Text.strip line) →
        (s.handle frames line).result = .ok none ∧ (s.handle frames line).session = s ∧
        Event.printed (s.handle frames line).events =
          Event.printed (s.showTable frames line).events)) ∧
    (∀ cause : ParseError, Grid.ofText line (frames + 1) = .error (.parse cause) →
      Text.strip line ≠ "" →
      (s.showTable frames line).result = .ok false ∧
      (∃ other : ParseError, other.message = cause.message ∧
        Grid.ofText (Text.strip line) (frames + 2) = .error (.parse other)) ∧
      (s.handle frames line).result = .ok (if s.exitOnError then some 1 else none) ∧
      (s.handle frames line).session = { s with failures := s.failures + 1 } ∧
      Event.printed (s.handle frames line).events = "" ∧
      (Event.records (s.handle frames line).events).filter (Record.reaches .error) =
        [.ofLevel .error cause.message] ∧
      (Event.records (s.showTable frames line).events).filter (Record.reaches .error) =
        [.ofLevel .error cause.message]) := by
  constructor
  · intro shown
    obtain ⟨t, tabulated⟩ := exists_table_of_shown shown
    have stripped := Table.ofText_strip_of_ok tabulated
    have isFormula := not_reserved_of_formula (Table.faithful_of_ofText stripped).1
    obtain ⟨lines, printed⟩ := Table.exists_lines tabulated
    have found := Grid.ofText_of_ok tabulated printed
    have foundStripped := Grid.ofText_of_ok stripped printed
    refine ⟨isFormula, ⟨t, lines, tabulated, stripped, found, foundStripped⟩, ?_,
      fun few low => ?_⟩
    · rw [showTable_of_ok foundStripped]
    · have further : Table.ofText (Text.strip line) (frames + 2) = .ok t := by
        rw [← stripped]
        exact Table.ofText_eq_of_low low (by omega) (by omega)
      rw [printed_showTable_of_ok found]
      exact handle_of_shown s isFormula (Grid.ofText_of_ok further printed)
  · intro cause refusedGrid filled
    have refused := Grid.ofText_eq_parse_iff.mp refusedGrid
    obtain ⟨other, sameMessage, stripped⟩ := Table.ofText_strip_of_parse refused
    have further : Table.ofText (Text.strip line) (frames + 2) = .error (.parse other) :=
      Table.ofText_eq_parse_mono (Nat.le_succ _) stripped
    have unlexed (e : LexError) : Table.ofText (Text.strip line) (frames + 1) ≠ .error (.lex e) := by
      simp [stripped]
    have isFormula := not_reserved unlexed filled
    obtain ⟨unshown, _, _, recorded⟩ := @refusal_only s _ _ _ refused trivial
    obtain ⟨status, counted, silent, reason⟩ := handle_of_refusal s isFormula further trivial
    have message : (FormulaError.parse other).message = cause.message := sameMessage
    rw [message] at reason
    exact ⟨unshown, ⟨other, sameMessage, Grid.ofText_of_error further⟩, status, counted, silent,
      reason, recorded⟩

/-- The blanks around a formula, or around a group with two formulas in it, make no difference. -/
theorem handle_like_showTable_indented :
    let s : Session := {}
    let accepted := "\t -A v B \r\n"
    let refused := " (A B) \n"
    ((s.showTable 1 accepted).result = .ok true ∧ Text.strip accepted = "-A v B" ∧
      (s.handle 1 accepted).result = .ok none ∧ (s.handle 1 accepted).session = s ∧
      Event.printed (s.handle 1 accepted).events =
        Event.printed (s.showTable 1 accepted).events) ∧
    (Grid.ofText refused 2 = .error (.parse (.crowdedGroup 2 ⟨.opening, "(", 1⟩)) ∧
      Text.strip refused ≠ "" ∧ (s.handle 1 refused).session = { failures := 1 } ∧
      (Event.records (s.handle 1 refused).events).filter (Record.reaches .error) =
        [.ofLevel .error (ParseError.message (.crowdedGroup 2 ⟨.opening, "(", 1⟩))]) := by
  intro s accepted refused
  have shown : (s.showTable 1 accepted).result = .ok true := by decide +kernel
  have crowded : Grid.ofText refused 2 = .error (.parse (.crowdedGroup 2 ⟨.opening, "(", 1⟩)) := by
    decide +kernel
  have filled : Text.strip refused ≠ "" := by decide +kernel
  have low : Formula.Low (Text.strip accepted) := by decide +kernel
  obtain ⟨_, _, _, handled⟩ := (handle_like_showTable s 1 accepted).1 shown
  obtain ⟨goesOn, kept, printed⟩ := handled (by decide) low
  obtain ⟨_, _, _, counted, _, recorded, _⟩ :=
    (handle_like_showTable s 1 refused).2 _ crowded filled
  exact ⟨⟨shown, by decide +kernel, goesOn, kept, printed⟩, crowded, filled, counted, recorded⟩

/-- A chain of 496 letters is shown, but handling it is left by an error. -/
theorem handle_escapes_shown :
    let line := alternatingText "A" .conjunction .disjunction 495
    (({} : Session).showTable 2 line).result = .ok true ∧
      (({} : Session).handle 2 line).result = .error .outOfFrames := by
  intro line
  obtain ⟨f, read, height, compound⟩ := exists_alternating 495 (by decide)
  have stripped : Text.strip line = line := strip_alternating ⟨'A', rfl, by decide⟩ 495
  obtain ⟨t, tabulated⟩ := Table.ofText_of_low read 3 (by rw [height]; decide)
  obtain ⟨lines, printed⟩ := Table.exists_lines tabulated
  have escapes : Escapes 4 line :=
    escapes_of_deep read (by rw [height]; decide) (by rw [height]; decide) (compound (by decide))
  constructor
  · rw [← stripped, showTable_of_ok (Grid.ofText_of_ok tabulated printed)]
  · rw [(result_and_session_handle {} 2 line).1, statusOf_of_escapes escapes]

end Session

end Propositional
