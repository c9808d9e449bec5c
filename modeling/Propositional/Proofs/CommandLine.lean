import Propositional.CommandLine.Run
import Propositional.Proofs.CommandLine.Requests
import Propositional.Proofs.Session.Loops

/-!
# Formulas on the command line

`run_one_shot` gives the status of a run over the formulas of its command line and the text that it
prints. `replies_handle` gives the part of the text that belongs to one line. Without inner detail
the only records that are shown are the announcement of a large table and the reason of a refusal,
so that part is the same with and without general progress.
-/

set_option autoImplicit false

namespace Propositional

/-! ## What a journal without inner detail shows -/

namespace Event

variable (j : Journal)

theorem transcript_map_line (texts : List String) :
    transcript j (texts.map .line) = CommandLine.unlines texts := by
  simp [transcript, CommandLine.unlines, Function.comp_def]

theorem transcript_map_record (written : List Record) :
    transcript j (written.map .record) = j.shown written := by
  simp [transcript, Journal.shown, Function.comp_def]

end Event

namespace Journal

theorem shown_inner {threshold : Level} (coarse : threshold ≠ .debug) {records : List Record}
    (inner : Record.Inner records) : (opened threshold).shown records = "" := by
  have hidden : records.filter (Record.reaches threshold) = [] := by
    rw [List.filter_eq_nil_iff]
    intro r member
    obtain ⟨message, rfl⟩ := inner r member
    cases threshold with
    | debug => exact absurd rfl coarse
    | _ => exact Bool.false_ne_true
  rw [shown_opened, transcript, hidden]
  rfl

theorem shown_coarse {threshold level : Level} (reached : threshold.weight ≤ level.weight)
    (coarse : level ≠ .debug) (message : String) :
    (opened threshold).shown [.ofLevel level message] = message ++ "\n" := by
  have shows : (Record.ofLevel level message).reaches threshold = true := decide_eq_true reached
  have bare : (Record.ofLevel level message).text = message := by
    cases level with
    | debug => exact absurd rfl coarse
    | _ => rfl
  rw [shown_opened, transcript, List.filter_cons_of_pos shows, List.filter_nil, List.map_singleton,
    bare, String.join_cons, String.join_nil, String.append_empty]

end Journal

/-! ## The account of a table -/

namespace Account

open Record

variable {α β : Type} {first : Account α} {next : α → Account β} {source : String}
  {frames : Nat}

theorem records_andThen_of_ok {value : α} (success : first.outcome = .ok value) :
    (first.andThen next).records = first.records ++ (next value).records := by
  simp only [andThen, success]

theorem records_andThen_of_error {cause : FormulaError} (failure : first.outcome = .error cause) :
    (first.andThen next).records = first.records := by
  simp only [andThen, failure]

/-- A refused text leaves only inner detail. -/
theorem inner_grid_of_refusal {cause : FormulaError}
    (refused : Table.ofText source frames = .error cause) (refusal : cause.IsRefusal) :
    Inner (grid source frames).records := by
  rcases bind_eq_error refused with analysed | ⟨a, _, unbuilt⟩
  · rw [grid, records_andThen_of_error ((outcome_table source frames).trans refused), table,
      records_andThen_of_error ((outcome_analysis source _).trans analysed)]
    exact inner_analysis source _
  · obtain ⟨e, _, rfl⟩ := mapError_eq_error unbuilt
    rw [Table.table_eq_outOfFrames refused] at refusal
    exact absurd refusal FormulaError.not_isRefusal_outOfFrames

/-- A text with a table leaves the announcement of the table between inner details. -/
theorem records_grid_of_ok {t : Table} (tabulated : Table.ofText source frames = .ok t) :
    ∃ before behind, Inner before ∧ Inner behind ∧
      (grid source frames).records = before ++ (announcement t.atoms.length ++ behind) := by
  obtain ⟨a, analysed, run⟩ := bind_eq_ok tabulated
  obtain rfl := Table.ofAnalysis_eq_ok (mapError_eq_ok_iff.mp run)
  refine ⟨_, _, inner_analysis source (frames + 1),
    inner_buildRecords (Table.ofAnalysis a (frames + 1)), ?_⟩
  rw [grid, records_andThen_of_ok ((outcome_table source frames).trans tabulated), List.append_nil,
    table, records_andThen_of_ok ((outcome_analysis source _).trans analysed)]
  rfl

end Account

namespace CommandLine

/-! ## What is printed for a line -/

def warning (atoms : Nat) : String :=
  "Formula has " ++ toString atoms ++ " variables, building " ++ toString (2 ^ atoms) ++ " rows"

/-- What is printed for a line of a session when no inner detail is shown. -/
inductive Replies (frames : Nat) (line : String) : String → Prop where
  | blank (content : Text.strip line = "") : Replies frames line ""
  | farewell (content : Text.strip line = "exit") : Replies frames line ""
  | legend (content : Text.strip line = "help") : Replies frames line (unlines Session.legend)
  | refusal {cause : FormulaError} (isFormula : Text.strip line ∉ ["", "help", "exit"])
      (refused : Table.ofText (Text.strip line) frames = .error cause) :
      Replies frames line (cause.message ++ "\n")
  | table {t : Table} {lines : List String} (isFormula : Text.strip line ∉ ["", "help", "exit"])
      (tabulated : Table.ofText (Text.strip line) frames = .ok t) (printed : Grid.lines t = .ok lines) :
      Replies frames line
        ((if 10 < t.atoms.length then warning t.atoms.length ++ "\n" else "") ++ unlines lines)

variable (verbose : Bool)

theorem weight_ofSwitches_le : (Level.ofSwitches false verbose).weight ≤ Level.warning.weight := by
  cases verbose <;> decide

theorem announcement_eq {atoms : Nat} (announceable : Table.Announceable atoms) :
    Account.announcement atoms =
      if 10 < atoms then [.ofLevel .warning (warning atoms)] else [] := by
  rw [Account.announcement, warning, ← Assignment.rowCount_eq]
  exact if_congr (and_iff_left announceable) rfl rfl

theorem shown_announcement {atoms : Nat} (announceable : Table.Announceable atoms) :
    (Journal.opened (.ofSwitches false verbose)).shown (Account.announcement atoms) =
      if 10 < atoms then warning atoms ++ "\n" else "" := by
  rw [announcement_eq announceable]
  by_cases large : 10 < atoms
  · rw [if_pos large, if_pos large]
    exact Journal.shown_coarse (weight_ofSwitches_le verbose) (by decide) _
  · rw [if_neg large, if_neg large]
    rfl

theorem ofSwitches_ne_debug : Level.ofSwitches false verbose ≠ .debug := by
  cases verbose <;> decide

theorem shown_refused (source reason : String) :
    (Journal.opened (.ofSwitches false verbose)).shown (Record.refused source reason) =
      reason ++ "\n" := by
  have lighter : (Level.ofSwitches false verbose).weight ≤ Level.error.weight :=
    Int.le_trans (weight_ofSwitches_le verbose) (by decide)
  rw [Record.refused, ← List.singleton_append, Journal.shown_append,
    Journal.shown_inner (ofSwitches_ne_debug verbose) (Record.inner_singleton _),
    Journal.shown_coarse lighter (by decide), String.empty_append]

/-- What a line prints and records, as it is shown without inner detail. -/
theorem replies_handle (s : Session) {frames : Nat} {line : String}
    (caught : ¬ Session.Escapes (frames + 2) line) :
    Replies (frames + 2) line
      (Event.transcript (.opened (.ofSwitches false verbose)) (s.handle frames line).events) := by
  have hidden {records : List Record} :=
    @Journal.shown_inner _ (ofSwitches_ne_debug verbose) records
  rcases Session.handle_cases frames line with
    ⟨content, handled⟩ | ⟨content, handled⟩ | ⟨content, handled⟩ | ⟨isFormula, handled⟩
  · rw [handled]
    exact .blank content
  · rw [handled, Event.transcript_map_line]
    exact .legend content
  · rw [handled]
    exact .farewell content
  · rw [handled]
    dsimp only
    cases tabulated : Table.ofText (Text.strip line) (frames + 2) with
    | ok t =>
        obtain ⟨lines, printed⟩ := Table.exists_lines tabulated
        obtain ⟨before, behind, beforeInner, behindInner, records⟩ :=
          Account.records_grid_of_ok tabulated
        rw [Session.showTable_of_ok (Grid.ofText_of_ok tabulated printed), Event.transcript_append,
          Event.transcript_map_record, Event.transcript_map_line, records, Journal.shown_append,
          Journal.shown_append, hidden beforeInner, hidden behindInner,
          shown_announcement verbose (Table.announceable_atoms tabulated), String.empty_append,
          String.append_empty]
        exact .table isFormula tabulated printed
    | error cause =>
        have refusal : cause.IsRefusal := by
          by_contra uncaught
          exact caught ⟨isFormula, cause, tabulated, uncaught⟩
        rw [Session.showTable_of_refusal (Grid.ofText_of_error tabulated) refusal,
          Event.transcript_map_record, Journal.shown_append,
          hidden (Account.inner_grid_of_refusal tabulated refusal), shown_refused,
          String.empty_append]
        exact .refusal isFormula tabulated

theorem Replies.of_low {frames more : Nat} {line text : String}
    (low : Formula.Low (Text.strip line)) (few : frames ≤ callerLimit + 4)
    (moreFew : more ≤ callerLimit + 4) (replies : Replies frames line text) :
    Replies more line text := by
  have same := Table.ofText_eq_of_low low few moreFew
  cases replies with
  | blank content => exact .blank content
  | farewell content => exact .farewell content
  | legend content => exact .legend content
  | refusal isFormula refused => exact .refusal isFormula (same ▸ refused)
  | table isFormula tabulated printed => exact .table isFormula (same ▸ tabulated) printed

theorem Replies.unique {frames : Nat} {line text other : String} (first : Replies frames line text)
    (second : Replies frames line other) : text = other := by
  cases first <;> cases second <;> simp_all

/-! ## The whole run -/

theorem requested_eq (expressions formulas : List String) (verbose debug exitOnError : Bool) :
    Settings.requested ⟨expressions.map some, formulas, verbose, debug, exitOnError⟩ =
      (expressions ++ formulas).map some := by
  rw [Settings.requested, List.map_append]

theorem run_eq_runLines {arguments lines : List String} {given : Settings} {frames status : Nat}
    (stdin : String) (ending : Ending) (delivered : Settings.ofArguments arguments = .ok given)
    (texts : given.requested = lines.map some) (requested : lines ≠ [])
    (ended : (given.session.runLines (frames + 1) lines).result = .ok status) :
    run arguments frames stdin ending =
      .ok (.ofEvents given.journal (given.session.runLines (frames + 1) lines).events status) := by
  have asked : lines.map some ≠ [] := fun empty => requested (List.map_eq_nil_iff.mp empty)
  rw [run, delivered]
  dsimp only
  rw [texts, if_neg asked, batch_map_some, ended]
  rfl

/-- A run takes the expressions, then the plain formulas, up to the first one that is `exit` or that
a strict run refuses. It fails exactly if it has refused one of those that it took, and it prints
what they print one after another. Unless inner detail is asked for, that is a reply to each, which
the line alone decides. -/
theorem run_one_shot (arguments : List String) (frames : Nat) (stdin : String) (ending : Ending)
    (expressions formulas : List String) (verbose debug exitOnError : Bool)
    (delivered : Settings.ofArguments arguments =
      .ok ⟨expressions.map some, formulas, verbose, debug, exitOnError⟩)
    (requested : expressions ++ formulas ≠ []) (few : frames ≤ callerLimit)
    (low : ∀ line ∈ expressions ++ formulas, Formula.Low (Text.strip line)) :
    let last (line : String) : Prop :=
      Text.strip line = "exit" ∨ exitOnError = true ∧ Session.Refused frames line
    let processed := upTo (fun line => last line) (expressions ++ formulas)
    let shown (line : String) : String :=
      Event.transcript (.opened (.ofSwitches debug verbose))
        (({} : Session).handle (frames + 2) line).events
    run arguments frames stdin ending =
        .ok ⟨if ∃ line ∈ processed, Session.Refused frames line then 1 else 0,
          String.join (processed.map shown), ""⟩ ∧
      (debug = false → ∀ line, Formula.Low (Text.strip line) →
        ∀ text, Replies frames line text ↔ text = shown line) := by
  intro last processed shown
  let session : Session := { exitOnError := exitOnError }
  have deepFew : frames + 4 ≤ callerLimit + 4 := Nat.add_le_add_right few 4
  have shallowFew : frames ≤ callerLimit + 4 := Nat.le_add_right_of_le few
  have caught : ∀ line ∈ expressions ++ formulas, ¬ Session.Escapes (frames + 4) line :=
    fun line member => Session.not_escapes_of_low (low line member) deepFew
  have refusedIff : ∀ line ∈ expressions ++ formulas,
      (Session.Refused (frames + 4) line ↔ Session.Refused frames line) :=
    fun line member => Session.refused_iff_of_low (low line member) shallowFew deepFew
  have taken : Session.handled exitOnError (frames + 4) (expressions ++ formulas) = processed := by
    refine upTo_congr fun line member => ?_
    have stops : session.Stops (frames + 4) line ↔ last line := by
      simp only [Session.Stops, caught line member, or_false, refusedIff line member, last, session]
    rw [Session.ends_statusOf session, decide_eq_decide.mpr stops]
  have events := Session.events_runLines session {} (frames + 1) (expressions ++ formulas)
  obtain ⟨status, ended⟩ := Session.exists_endOf session (frames + 4) _ caught
  have result := Session.result_runLines_fresh session (frames + 1) (expressions ++ formulas) ended
  rw [taken] at events result
  have refused : (∃ line ∈ processed, Session.Refused (frames + 4) line) ↔
      ∃ line ∈ processed, Session.Refused frames line :=
    exists_congr fun line => and_congr_right fun member =>
      refusedIff line (mem_of_mem_upTo member)
  simp only [refused] at result
  have joined := text_flatMap (rfl : Event.transcript (.opened (.ofSwitches debug verbose)) [] = "")
    (Event.transcript_append _) (fun line => (({} : Session).handle (frames + 2) line).events)
    processed
  rw [← events] at joined
  refine ⟨?_, ?_⟩
  · rw [run_eq_runLines stdin ending delivered (requested_eq _ _ _ _ _) requested result, ← joined]
    rfl
  · rintro rfl line lineLow text
    have spoken := replies_handle verbose {} (Session.not_escapes_of_low lineLow deepFew)
    have same := spoken.of_low lineLow deepFew shallowFew
    refine ⟨fun replies => replies.unique same, ?_⟩
    rintro rfl
    exact same

theorem run_one_shot_until_exit :
    let arguments :=
      ["--expression=A ^", "--expression=A", "--verbose", "--", " exit", "--exit-on-error"]
    Settings.ofArguments arguments =
        .ok ⟨[some "A ^", some "A"], [" exit", "--exit-on-error"], true, false, false⟩ ∧
      run arguments 1 "" .endOfInput =
        .ok ⟨1, "Unexpected token EOF\n| A |\n-----\n| T |\n| F |\n", ""⟩ ∧
      Replies 1 "A" "| A |\n-----\n| T |\n| F |\n" := by
  intro arguments
  have delivered := @Settings.ofArguments_spelled ["A ^", "A"] [" exit", "--exit-on-error"]
    [.verbose] _ (by decide) (by decide) rfl
  obtain ⟨outcome, replies⟩ := run_one_shot arguments 1 "" .endOfInput ["A ^", "A"]
    [" exit", "--exit-on-error"] true false false delivered (by decide) (by decide)
    (by decide +kernel)
  refine ⟨delivered, outcome.trans ?_, (replies rfl "A" (by decide +kernel) _).mpr
    (by decide +kernel)⟩
  refine congrArg₂ (fun status stdout => Except.ok (Outcome.mk status stdout "")) ?_ ?_
  · decide +kernel
  · decide +kernel

end CommandLine

end Propositional
