import Mathlib.Data.Set.List
import Propositional.Proofs.Session.Loops

/-!
# Reports of a session at different levels

`replay_at_level` compares the reports of the same steps when the journal is set to one level or to
another. `leveled_turns` gives the records of a session a level each, and `shown_setLevel` gives
what a journal set to a level shows of them.
-/

set_option autoImplicit false

namespace Propositional

theorem exists_map_eq {α β : Type} {f : α → β} {images : List β}
    (each : ∀ image ∈ images, ∃ item, f item = image) : ∃ items : List α, items.map f = images := by
  have inRange : images ∈ Set.range (List.map f) := by
    rw [Set.range_list_map]
    exact each
  exact inRange

/-! ## Records of a level -/

abbrev Note : Type :=
  Level × String

namespace Note

def record (note : Note) : Record :=
  .ofLevel note.1 note.2

def reaches (threshold : Level) (note : Note) : Bool :=
  threshold.weight ≤ note.1.weight

def text (notes : List Note) : String :=
  String.join (notes.map fun note => note.record.text ++ "\n")

def shownAt (threshold : Level) (notes : List Note) : String :=
  text (notes.filter (reaches threshold))

theorem filter_sublist {low high : Level} (raised : low.weight ≤ high.weight) (notes : List Note) :
    (notes.filter (reaches high)).Sublist (notes.filter (reaches low)) := by
  refine List.monotone_filter_right notes fun note reached => ?_
  have heavy : high.weight ≤ note.1.weight := of_decide_eq_true reached
  exact decide_eq_true (Int.le_trans raised heavy)

theorem shown_setLevel (start level : Level) (notes : List Note) :
    ((Journal.opened start).setLevel level).shown (notes.map record) = shownAt level notes := by
  have sameFilter : Record.reaches level ∘ record = reaches level := rfl
  rw [Journal.setLevel_opened, Journal.shown_opened, Journal.transcript, List.filter_map,
    List.map_map, sameFilter]
  rfl

end Note

namespace Event

def Leveled : Event → Prop
  | record r => ∃ note : Note, note.record = r
  | _ => True

theorem exists_notes {events : List Event} (leveled : ∀ event ∈ events, event.Leveled) :
    ∃ notes : List Note, notes.map Note.record = records events := by
  refine exists_map_eq fun r member => ?_
  obtain ⟨event, eventMember, written⟩ := List.mem_filterMap.mp member
  have eventLeveled := leveled event eventMember
  cases event with
  | record other =>
      cases written
      exact eventLeveled
  | line text => cases written
  | prompt => cases written

theorem leveled_lines (texts : List String) : ∀ event ∈ texts.map line, event.Leveled := by
  intro event member
  obtain ⟨text, _, rfl⟩ := List.mem_map.mp member
  trivial

theorem leveled_quiet {written : List Record} (quiet : Record.Quiet written) :
    ∀ event ∈ written.map record, event.Leveled := by
  intro event member
  obtain ⟨r, recordMember, rfl⟩ := List.mem_map.mp member
  obtain ⟨level, message, _, rfl⟩ := quiet r recordMember
  exact ⟨(level, message), rfl⟩

theorem leveled_refused (source reason : String) :
    ∀ event ∈ (Record.refused source reason).map record, event.Leveled := by
  intro event member
  simp only [Record.refused, List.map_cons, List.map_nil, List.mem_cons, List.not_mem_nil,
    or_false] at member
  rcases member with rfl | rfl
  · exact ⟨(.debug, _), rfl⟩
  · exact ⟨(.error, reason), rfl⟩

end Event

/-! ## Steps of a session -/

namespace Session

variable (s : Session) (frames : Nat)

theorem leveled_showTable (source : String) :
    ∀ event ∈ (s.showTable frames source).events, event.Leveled := by
  have quiet := Event.leveled_quiet (Account.quiet_grid source (frames + 1))
  cases printed : Grid.ofText source (frames + 1) with
  | ok lines =>
      rw [showTable_of_ok printed]
      exact List.forall_mem_append.mpr ⟨quiet, Event.leveled_lines lines⟩
  | error cause =>
      by_cases refusal : cause.IsRefusal
      · rw [showTable_of_refusal printed refusal, List.map_append]
        exact List.forall_mem_append.mpr ⟨quiet, Event.leveled_refused source cause.message⟩
      · rw [showTable_of_escape printed refusal]
        exact quiet

theorem leveled_handle (line : String) :
    ∀ event ∈ (s.handle frames line).events, event.Leveled := by
  rcases handle_cases frames line with ⟨_, handled⟩ | ⟨_, handled⟩ | ⟨_, handled⟩ | ⟨_, handled⟩
  · rw [handled]
    exact nofun
  · rw [handled]
    exact Event.leveled_lines legend
  · rw [handled]
    exact nofun
  · rw [handled]
    dsimp only
    exact leveled_showTable s _ _

theorem leveled_runLines (lines : List String) :
    ∀ event ∈ (s.runLines frames lines).events, event.Leveled := by
  rw [events_runLines s s]
  intro event member
  obtain ⟨line, _, inLine⟩ := List.mem_flatMap.mp member
  exact leveled_handle s _ line event inLine

theorem leveled_run (lines : List String) :
    ∀ event ∈ (s.run frames lines).events, event.Leveled := by
  have ending : ∀ ended : Prop, ∀ _ : Decidable ended,
      ∀ event ∈ (if ended then [.prompt, .line ""] else [] : List Event), event.Leveled := by
    intro ended _ event member
    split at member
    · rcases List.mem_pair.mp member with rfl | rfl <;> trivial
    · cases member
  rw [run_eq s s]
  refine List.forall_mem_append.mpr ⟨List.forall_mem_cons.mpr ⟨⟨(.info, _), rfl⟩, ?_⟩, ending _ _⟩
  intro event member
  obtain ⟨line, _, inLine⟩ := List.mem_flatMap.mp member
  rcases List.mem_cons.mp inLine with rfl | inLine
  · trivial
  · exact leveled_handle s _ line event inLine

theorem leveled_step (step : Step) : ∀ event ∈ (s.step frames step).events, event.Leveled := by
  cases step with
  | handle line => simpa only [step] using leveled_handle s frames line
  | showTable source => exact leveled_showTable s frames source
  | help => exact Event.leveled_lines legend
  | runLines lines => exact leveled_runLines s frames lines
  | run lines => exact leveled_run s frames lines
  | exitOnError value => exact nofun
  | setLevel level => exact nofun

def turns (s : Session) (frames : Nat) : List Step → List (Turn Result)
  | [] => []
  | step :: rest => s.step frames step :: (s.step frames step).session.turns frames rest

theorem length_turns (steps : List Step) : (s.turns frames steps).length = steps.length := by
  induction steps generalizing s with
  | nil => rfl
  | cons step rest ih => rw [turns, List.length_cons, ih, List.length_cons]

theorem leveled_turns (steps : List Step) :
    ∀ turn ∈ s.turns frames steps, ∀ event ∈ turn.events, event.Leveled := by
  induction steps generalizing s with
  | nil => exact fun turn member => absurd member List.not_mem_nil
  | cons step rest ih => exact List.forall_mem_cons.mpr ⟨leveled_step s frames step, ih _⟩

/-- Steps that set no level are all reported with one journal. -/
theorem replayFrom_eq (j : Journal) {steps : List Step}
    (kept : ∀ step ∈ steps, step.level? = none) :
    replayFrom j s frames steps = (s.turns frames steps).map (report j) := by
  induction steps generalizing s with
  | nil => rfl
  | cons step rest ih =>
      obtain ⟨here, later⟩ := List.forall_mem_cons.mp kept
      have same : step.journalAfter j = j := by rw [Step.journalAfter, here, Option.elim_none]
      rw [replayFrom, turns, List.map_cons, same, ih _ later]

def Report.unlogged (r : Report) : Report :=
  { r with log := "" }

/-- The journal is set to a level before some steps that one session takes. Whatever the level, the
steps give the same results, failures, text and prompts, and write the same messages, each of a
level. The journal shows those of its level and above, so at a higher level it shows a part of what
it shows at a lower one, in the same order. -/
theorem replay_at_level (s : Session) (start : Level) (frames : Nat) (steps : List Step)
    (kept : ∀ step ∈ steps, step.level? = none) :
    let reports (level : Level) := replayFrom ((Journal.opened start).setLevel level) s frames steps
    (∀ level other, (reports level).map Report.unlogged = (reports other).map Report.unlogged) ∧
      (∃ written : List (List Note), written.length = steps.length ∧
        written.map (List.map Note.record) =
          (s.turns frames steps).map (fun turn => Event.records turn.events) ∧
        ∀ level, (reports level).map Report.log = written.map (Note.shownAt level)) ∧
      ∀ low high : Level, low.weight ≤ high.weight → List.Forall₂
        (fun fine coarse => ∃ all fewer : List Note, fewer.Sublist all ∧
          fine.log = Note.text all ∧ coarse.log = Note.text fewer)
        (reports low) (reports high) := by
  intro reports
  have reported (level : Level) : reports level = (s.turns frames steps).map
      (report ((Journal.opened start).setLevel level)) := replayFrom_eq s frames _ kept
  have each : ∀ records ∈ (s.turns frames steps).map fun turn => Event.records turn.events,
      ∃ notes : List Note, notes.map Note.record = records := by
    intro records member
    obtain ⟨turn, turnMember, rfl⟩ := List.mem_map.mp member
    exact Event.exists_notes (leveled_turns s frames steps turn turnMember)
  obtain ⟨written, same⟩ := exists_map_eq each
  refine ⟨fun level other => ?_, ⟨written, ?_, same, fun level => ?_⟩, fun low high raised => ?_⟩
  · rw [reported, reported, List.map_map, List.map_map]
    rfl
  · rw [← List.length_map (List.map Note.record), same, List.length_map, length_turns]
  · have shown : (reports level).map Report.log =
        ((s.turns frames steps).map fun turn => Event.records turn.events).map
          ((Journal.opened start).setLevel level).shown := by
      rw [reported, List.map_map, List.map_map]
      rfl
    rw [shown, ← same, List.map_map]
    exact List.map_congr_left fun notes _ => Note.shown_setLevel start level notes
  · rw [reported, reported, List.forall₂_map_left_iff, List.forall₂_map_right_iff,
      List.forall₂_same]
    intro turn member
    obtain ⟨notes, recorded⟩ := Event.exists_notes (leveled_turns s frames steps turn member)
    have logged (level : Level) : Event.logged ((Journal.opened start).setLevel level) turn.events =
        Note.shownAt level notes := by
      rw [Event.logged, ← recorded, Note.shown_setLevel]
    exact ⟨_, _, Note.filter_sublist raised notes, logged low, logged high⟩

/-- The steps are a refused line, a change of strictness, the legend and a table, a run that a
refusal ends, a refused text, and the legend again. -/
theorem replay_at_level_mixed :
    let steps : List Step := [.handle "A ^", .exitOnError true, .runLines ["help", " A -> B"],
      .run ["A", "A B", "A"], .showTable "help", .help]
    let reports (level : Level) := replayFrom ((Journal.opened .info).setLevel level) {} 1 steps
    (∀ step ∈ steps, step.level? = none) ∧
      (∀ level other, (reports level).map Report.unlogged = (reports other).map Report.unlogged) ∧
      (∃ written : List (List Note), written.length = 6 ∧
        ∀ level, (reports level).map Report.log = written.map (Note.shownAt level)) ∧
      (reports .error).map Report.log = ["Unexpected token EOF\n", "", "",
        "Expected a single expression, found 2: A, B\n", "Unknown token h\n", ""] ∧
      (reports .info).map Report.log = ["Unexpected token EOF\n", "", "",
        "Type 'help' for the operator legend, 'exit' to quit.\n" ++
          "Expected a single expression, found 2: A, B\n", "Unknown token h\n", ""] := by
  intro steps reports
  have kept : ∀ step ∈ steps, step.level? = none := by decide
  obtain ⟨same, ⟨written, length, _, logs⟩, _⟩ := replay_at_level {} .info 1 steps kept
  exact ⟨kept, same, ⟨written, length, logs⟩, by decide +kernel, by decide +kernel⟩

end Session

end Propositional
