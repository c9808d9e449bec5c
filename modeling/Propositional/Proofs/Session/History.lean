import Propositional.Proofs.Alternation
import Propositional.Proofs.Session

/-!
# Lines handled by one session and by new ones

`handle_eq` gives the status of a line, the session after it and its events, which are the same in
every session. From it `handleLines_fresh` compares the lines that one session handles with the same
lines handled by new sessions.

The table of a line is built two frames further in than `handle` is called. Formulas of up to 401
levels leave frames enough for this to make no difference; `handle_counts_accepted` is a higher one.
-/

set_option autoImplicit false

namespace Propositional

/-! ## Lists up to an item -/

section UpTo

variable {α β : Type}

/-- The items up to the first one with a property, that one included, or all of them if there is
none. -/
def upTo (p : α → Bool) (items : List α) : List α :=
  (items.findIdx? p).elim items fun k => items.take (k + 1)

theorem upTo_cons (p : α → Bool) (item : α) (rest : List α) :
    upTo p (item :: rest) = item :: if p item then [] else upTo p rest := by
  unfold upTo
  rw [List.findIdx?_cons]
  by_cases found : p item = true
  · simp [found]
  · cases rest.findIdx? p <;> simp [found]

theorem mem_of_mem_upTo {p : α → Bool} {items : List α} {item : α}
    (member : item ∈ upTo p items) : item ∈ items := by
  unfold upTo at member
  cases found : items.findIdx? p with
  | none => rwa [found] at member
  | some k =>
      rw [found] at member
      exact List.mem_of_mem_take member

theorem upTo_congr {p q : α → Bool} {items : List α} (same : ∀ item ∈ items, p item = q item) :
    upTo p items = upTo q items := by
  induction items with
  | nil => rfl
  | cons item rest ih =>
      obtain ⟨here, later⟩ := List.forall_mem_cons.mp same
      rw [upTo_cons, upTo_cons, here, ih later]

theorem length_upTo (p : α → Bool) (items : List α) :
    (upTo p items).length = (items.findIdx? p).elim items.length (· + 1) := by
  cases found : items.findIdx? p with
  | none => rw [upTo, found]; rfl
  | some k =>
      obtain ⟨inside, _⟩ := List.findIdx?_eq_some_iff_getElem.mp found
      rw [upTo, found, Option.elim_some, Option.elim_some, List.length_take]
      omega

/-- A text that is read off a list piece by piece is joined from the texts of the pieces. -/
theorem text_flatMap {text : List β → String} (none : text [] = "")
    (append : ∀ front back, text (front ++ back) = text front ++ text back) (f : α → List β)
    (items : List α) :
    text (items.flatMap f) = String.join (items.map fun item => text (f item)) := by
  induction items with
  | nil => exact none
  | cons item rest ih => rw [List.flatMap_cons, append, ih, List.map_cons, String.join_cons]

def ends {ε : Type} : Except ε (Option α) → Bool
  | .ok none => false
  | _ => true

end UpTo

/-! ## Formulas of up to 401 levels -/

/-- The formula that a text says, if it says one, has at most 401 levels. -/
def Formula.Low (source : String) : Prop :=
  ∀ f, Formula.ofText source = .ok f → f.height ≤ 401

instance Formula.decidableLow (source : String) : Decidable (Low source) :=
  match read : Formula.ofText source with
  | .ok f => decidable_of_iff (f.height ≤ 401)
      ⟨fun low g other => by cases read.symm.trans other; exact low, fun low => low f read⟩
  | .error _ => .isTrue fun f other => by cases read.symm.trans other

namespace Table

theorem Faithful.eq_filled {t : Table} {frames : Nat} (faithful : t.Faithful frames) :
    t = filled ⟨t.formula, t.formula.leaves.eraseDups, t.formula.parts⟩ := by
  obtain ⟨⟨f, atoms, columns⟩, rows⟩ := t
  obtain ⟨_, atomsEq, columnsEq, rowsEq⟩ := faithful
  dsimp only at atomsEq columnsEq rowsEq
  rw [rowsEq, atomsEq, columnsEq]
  rfl

section Low

variable {source : String} (low : Formula.Low source) {frames more : Nat}
  (few : frames ≤ callerLimit + 4)

include low few

theorem exists_ofText_of_low {f : Formula} (read : Formula.ofText source = .ok f) :
    Table.ofText source frames = .ok (filled ⟨f, f.leaves.eraseDups, f.parts⟩) := by
  have levels : f.height ≤ evaluationLevels (frames + 4) :=
    Nat.le_trans (low f read) (le_evaluationLevels (Nat.add_le_add_right few 4))
  obtain ⟨t, tabulated⟩ := ofText_of_low read frames levels
  obtain ⟨same, faithful⟩ := faithful_of_ofText tabulated
  cases read.symm.trans same
  rw [tabulated, ← faithful.eq_filled]

theorem ofText_eq_of_low (moreFew : more ≤ callerLimit + 4) :
    Table.ofText source frames = Table.ofText source more := by
  cases read : Formula.ofText source with
  | ok f => rw [exists_ofText_of_low low few read, exists_ofText_of_low low moreFew read]
  | error cause =>
      rw [Table.ofText, Analysis.ofText, read, Table.ofText, Analysis.ofText, read]
      rfl

theorem isRefusal_of_low {cause : FormulaError}
    (failed : Table.ofText source frames = .error cause) : cause.IsRefusal := by
  cases read : Formula.ofText source with
  | ok f =>
      rw [exists_ofText_of_low low few read] at failed
      cases failed
  | error other =>
      rw [Table.ofText, Analysis.ofText, read] at failed
      cases failed
      rcases Formula.ofText_error read with ⟨e, rfl⟩ | ⟨e, _, rfl⟩
      · trivial
      · trivial

end Low

end Table

instance decidableError {ε α : Type} (outcome : Except ε α) (p : ε → Prop) [DecidablePred p] :
    Decidable (∃ cause, outcome = .error cause ∧ p cause) :=
  match outcome with
  | .ok _ => .isFalse fun ⟨_, failed, _⟩ => by cases failed
  | .error cause => decidable_of_iff (p cause)
      ⟨fun holds => ⟨cause, rfl, holds⟩, fun ⟨_, same, holds⟩ => by cases same; exact holds⟩

namespace Session

/-! ## One line -/

/-- The line is taken for a formula, and the formula is refused. -/
def Refused (frames : Nat) (line : String) : Prop :=
  Text.strip line ∉ ["", "help", "exit"] ∧
    ∃ cause, Table.ofText (Text.strip line) frames = .error cause ∧ cause.IsRefusal

/-- The line is taken for a formula, and an error that nobody catches keeps it from its table. -/
def Escapes (frames : Nat) (line : String) : Prop :=
  Text.strip line ∉ ["", "help", "exit"] ∧
    ∃ cause, Table.ofText (Text.strip line) frames = .error cause ∧ ¬ cause.IsRefusal

instance decidableRefused (frames : Nat) : DecidablePred (Refused frames) :=
  fun _ => inferInstanceAs (Decidable (_ ∧ _))

instance decidableEscapes (frames : Nat) : DecidablePred (Escapes frames) :=
  fun _ => inferInstanceAs (Decidable (_ ∧ _))

theorem not_refused_of_escapes {frames : Nat} {line : String} (escapes : Escapes frames line) :
    ¬ Refused frames line := by
  rintro ⟨_, cause, failed, refusal⟩
  obtain ⟨_, other, otherFailed, uncaught⟩ := escapes
  cases failed.symm.trans otherFailed
  exact uncaught refusal

theorem not_reserved_of_formula {content : String} {f : Formula}
    (read : Formula.ofText content = .ok f) : content ∉ ["", "help", "exit"] := by
  intro reserved
  have failed : ∀ word ∈ ["", "help", "exit"], (Formula.ofText word).isOk = false := by
    decide +kernel
  have unread := failed content reserved
  rw [read] at unread
  cases unread

theorem refused_of_tall {frames : Nat} {line : String} {f : Formula}
    (read : Formula.ofText (Text.strip line) = .ok f)
    (tall : gatheringLevels (frames + 2) < f.height) : Refused frames line :=
  ⟨not_reserved_of_formula read, _, Table.ofText_of_tall read frames tall, trivial⟩

theorem escapes_of_deep {frames : Nat} {line : String} {f : Formula}
    (read : Formula.ofText (Text.strip line) = .ok f)
    (low : f.height ≤ gatheringLevels (frames + 2)) (deep : evaluationLevels (frames + 4) < f.height)
    (compound : f.parts ≠ []) : Escapes frames line :=
  ⟨not_reserved_of_formula read, _, Table.ofText_of_deep read frames low deep compound, id⟩

theorem exists_alternating (n : Nat) (printable : n < printLimit) :
    ∃ f, Formula.ofText (Text.strip (alternatingText "A" .conjunction .disjunction n)) = .ok f ∧
      f.height = n + 1 ∧ (0 < n → f.parts ≠ []) := by
  have letter : IsLetter "A" := ⟨'A', rfl, by decide⟩
  have height := @height_alternate "A" .conjunction .disjunction n (.atom "A") Nat.one_pos
  rw [strip_alternating letter, ofText_alternating letter (by decide) n printable]
  refine ⟨_, rfl, height.trans (Nat.add_comm 1 n), fun positive => ?_⟩
  exact Formula.parts_ne_nil (height ▸ Nat.lt_add_of_pos_right positive)

theorem not_escapes_of_low {frames : Nat} {line : String} (low : Formula.Low (Text.strip line))
    (few : frames ≤ callerLimit + 4) : ¬ Escapes frames line :=
  fun ⟨_, _, failed, uncaught⟩ => uncaught (Table.isRefusal_of_low low few failed)

theorem refused_iff_of_low {frames more : Nat} {line : String}
    (low : Formula.Low (Text.strip line)) (few : frames ≤ callerLimit + 4)
    (moreFew : more ≤ callerLimit + 4) : Refused more line ↔ Refused frames line := by
  rw [Refused, Refused, Table.ofText_eq_of_low low few moreFew]

/-- What comes of a line whose table is built with `frames` held: `exit` ends every session and a
refused line a strict one. -/
def statusOf (strict : Bool) (frames : Nat) (line : String) : Except FormulaError (Option Nat) :=
  if Text.strip line = "exit" then .ok (some 0)
  else if Refused frames line then .ok (if strict then some 1 else none)
  else if Escapes frames line then .error .outOfFrames
  else .ok none

theorem ne_exit_of_formula {line : String} (isFormula : Text.strip line ∉ ["", "help", "exit"]) :
    Text.strip line ≠ "exit" := by
  rintro isExit
  simp [isExit] at isFormula

theorem statusOf_of_refused {strict : Bool} {frames : Nat} {line : String}
    (refused : Refused frames line) :
    statusOf strict frames line = .ok (if strict then some 1 else none) := by
  rw [statusOf, if_neg (ne_exit_of_formula refused.1), if_pos refused]

theorem statusOf_of_escapes {strict : Bool} {frames : Nat} {line : String}
    (escapes : Escapes frames line) : statusOf strict frames line = .error .outOfFrames := by
  rw [statusOf, if_neg (ne_exit_of_formula escapes.1), if_neg (not_refused_of_escapes escapes),
    if_pos escapes]

theorem exists_statusOf (strict : Bool) {frames : Nat} {line : String}
    (caught : ¬ Escapes frames line) : ∃ status, statusOf strict frames line = .ok status := by
  unfold statusOf
  rw [if_neg caught]
  split_ifs <;> exact ⟨_, rfl⟩

def counting (s : Session) (frames : Nat) (line : String) : Session :=
  { s with failures := s.failures + if Refused frames line then 1 else 0 }

theorem exitOnError_counting (s : Session) (frames : Nat) (line : String) :
    (s.counting frames line).exitOnError = s.exitOnError := by
  rw [counting]

variable (s : Session) (frames : Nat) (source line : String)

theorem events_showTable (t : Session) :
    (s.showTable frames source).events = (t.showTable frames source).events := by
  cases printed : Grid.ofText source (frames + 1) with
  | ok lines => rw [showTable_of_ok printed, showTable_of_ok printed]
  | error cause =>
      by_cases refusal : cause.IsRefusal
      · rw [showTable_of_refusal printed refusal, showTable_of_refusal printed refusal]
      · rw [showTable_of_escape printed refusal, showTable_of_escape printed refusal]

/-- A line is blank, or one of the two reserved words, or its table is shown, in every session. -/
theorem handle_cases :
    (Text.strip line = "" ∧ ∀ s : Session, s.handle frames line = ⟨.ok none, s, []⟩) ∨
    (Text.strip line = "help" ∧
      ∀ s : Session, s.handle frames line = ⟨.ok none, s, legend.map .line⟩) ∨
    (Text.strip line = "exit" ∧ ∀ s : Session, s.handle frames line = ⟨.ok (some 0), s, []⟩) ∨
    (Text.strip line ∉ ["", "help", "exit"] ∧ ∀ s : Session, s.handle frames line =
      ⟨(s.showTable (frames + 1) (Text.strip line)).result.map fun accepted =>
          if !accepted && s.exitOnError then some 1 else none,
        (s.showTable (frames + 1) (Text.strip line)).session,
        (s.showTable (frames + 1) (Text.strip line)).events⟩) := by
  simp only [handle]
  by_cases blank : Text.strip line = ""
  · exact .inl ⟨blank, fun s => if_pos blank⟩
  · by_cases isHelp : Text.strip line = "help"
    · refine .inr (.inl ⟨isHelp, fun s => ?_⟩)
      rw [if_neg blank, if_pos isHelp, help]
    · by_cases isExit : Text.strip line = "exit"
      · refine .inr (.inr (.inl ⟨isExit, fun s => ?_⟩))
        rw [if_neg blank, if_neg isHelp, if_pos isExit]
      · refine .inr (.inr (.inr ⟨by simp [blank, isHelp, isExit], fun s => ?_⟩))
        rw [if_neg blank, if_neg isHelp, if_neg isExit]

theorem events_handle (t : Session) :
    (s.handle frames line).events = (t.handle frames line).events := by
  rcases handle_cases frames line with ⟨_, handled⟩ | ⟨_, handled⟩ | ⟨_, handled⟩ | ⟨_, handled⟩
  · rw [handled, handled]
  · rw [handled, handled]
  · rw [handled, handled]
  · rw [handled, handled, events_showTable s _ _ t]

theorem statusOf_reserved {strict : Bool} {word : String} (content : Text.strip line = word)
    (known : word ∈ ["", "help", "exit"]) :
    statusOf strict frames line = (if word = "exit" then .ok (some 0) else .ok none) ∧
      s.counting frames line = s := by
  have noFormula : ¬ Text.strip line ∉ ["", "help", "exit"] := by
    rw [content]
    exact not_not.mpr known
  have accepted : ¬ Refused frames line := fun refused => noFormula refused.1
  have caught : ¬ Escapes frames line := fun escapes => noFormula escapes.1
  constructor
  · rw [statusOf, content, if_neg accepted, if_neg caught]
  · rw [counting, if_neg accepted, Nat.add_zero]

theorem result_and_session_handle :
    (s.handle frames line).result = statusOf s.exitOnError (frames + 2) line ∧
      (s.handle frames line).session = s.counting (frames + 2) line := by
  rcases handle_cases frames line with
    ⟨content, handled⟩ | ⟨content, handled⟩ | ⟨content, handled⟩ | ⟨isFormula, handled⟩
  · obtain ⟨status, kept⟩ := statusOf_reserved s (frames + 2) line content (by simp)
    rw [handled, status, kept]
    exact ⟨rfl, rfl⟩
  · obtain ⟨status, kept⟩ := statusOf_reserved s (frames + 2) line content (by simp)
    rw [handled, status, kept]
    exact ⟨rfl, rfl⟩
  · obtain ⟨status, kept⟩ := statusOf_reserved s (frames + 2) line content (by simp)
    rw [handled, status, kept]
    exact ⟨rfl, rfl⟩
  · rw [handled]
    cases tabulated : Table.ofText (Text.strip line) (frames + 2) with
    | ok t =>
        obtain ⟨lines, printed⟩ := Table.exists_lines tabulated
        have accepted : ¬ Refused (frames + 2) line := by simp [Refused, tabulated]
        have caught : ¬ Escapes (frames + 2) line := by simp [Escapes, tabulated]
        rw [showTable_of_ok (Grid.ofText_of_ok tabulated printed), statusOf,
          if_neg (ne_exit_of_formula isFormula), if_neg accepted, if_neg caught, counting,
          if_neg accepted]
        exact ⟨rfl, rfl⟩
    | error cause =>
        have failed := Grid.ofText_of_error tabulated
        by_cases refusal : cause.IsRefusal
        · have refused : Refused (frames + 2) line := ⟨isFormula, cause, tabulated, refusal⟩
          rw [showTable_of_refusal failed refusal, statusOf_of_refused refused, counting,
            if_pos refused]
          exact ⟨rfl, rfl⟩
        · have escapes : Escapes (frames + 2) line := ⟨isFormula, cause, tabulated, refusal⟩
          rw [showTable_of_escape failed refusal, statusOf_of_escapes escapes, counting,
            if_neg (not_refused_of_escapes escapes),
            (Table.isRefusal_or_outOfFrames tabulated).resolve_left refusal]
          exact ⟨rfl, rfl⟩

theorem handle_eq (t : Session) :
    s.handle frames line = ⟨statusOf s.exitOnError (frames + 2) line, s.counting (frames + 2) line,
      (t.handle frames line).events⟩ := by
  obtain ⟨result, session⟩ := result_and_session_handle s frames line
  rw [← result, ← session, ← events_handle s frames line t]

/-! ## Lines one after another -/

/-- Handles lines one after another up to the first that gives a status. The result lists what
each of them gives, unless an error leaves one of them. -/
def handleLines (s : Session) (frames : Nat) : List String → Turn (List (Option Nat))
  | [] => ⟨.ok [], s, []⟩
  | line :: rest =>
      let first := s.handle frames line
      match first.result with
      | .ok none =>
          let later := first.session.handleLines frames rest
          ⟨later.result.map (none :: ·), later.session, first.events ++ later.events⟩
      | result => ⟨result.map ([·]), first.session, first.events⟩

def handled (strict : Bool) (frames : Nat) (lines : List String) : List String :=
  upTo (fun line => ends (statusOf strict frames line)) lines

def countingAll (s : Session) (frames : Nat) (lines : List String) : Session :=
  { s with failures := s.failures + lines.countP fun line => Refused frames line }

theorem countingAll_nil : s.countingAll frames [] = s :=
  rfl

theorem countingAll_cons (rest : List String) :
    s.countingAll frames (line :: rest) = (s.counting frames line).countingAll frames rest := by
  simp only [countingAll, counting, List.countP_cons, decide_eq_true_eq, Nat.add_assoc,
    Nat.add_comm]

theorem handled_cons (strict : Bool) (rest : List String) :
    handled strict frames (line :: rest) =
      line :: if ends (statusOf strict frames line) then [] else handled strict frames rest :=
  upTo_cons _ _ _

theorem handleLines_eq (t : Session) (lines : List String) :
    s.handleLines frames lines =
      ⟨(handled s.exitOnError (frames + 2) lines).mapM (statusOf s.exitOnError (frames + 2)),
        s.countingAll (frames + 2) (handled s.exitOnError (frames + 2) lines),
        (handled s.exitOnError (frames + 2) lines).flatMap fun line =>
          (t.handle frames line).events⟩ := by
  induction lines generalizing s with
  | nil => rfl
  | cons line rest ih =>
      have later := ih (s.counting (frames + 2) line)
      rw [exitOnError_counting] at later
      rw [handleLines, handled_cons, handle_eq s frames line t]
      rcases given : statusOf s.exitOnError (frames + 2) line with cause | _ | status
      · simp [given, ends, countingAll_cons, countingAll_nil]
        rfl
      · simp [given, later, ends, countingAll_cons]
        rfl
      · simp [given, ends, countingAll_cons, countingAll_nil]
        rfl

/-- One session handles lines as new ones do that are as strict: a line gives the same status, and
what is printed and shown is joined from what each line has printed and shown by a new session. The
failures have grown by the number of lines that are refused two frames further in. Up to 401 levels
these are the lines that are refused here, and no error leaves a line. -/
theorem handleLines_fresh (s : Session) (j : Journal) (frames : Nat) (lines : List String) :
    let fresh : Session := { exitOnError := s.exitOnError }
    let processed := upTo (fun line => ends (fresh.handle frames line).result) lines
    let turn := s.handleLines frames lines
    turn.result = processed.mapM (fun line => (fresh.handle frames line).result) ∧
      Event.printed turn.events =
        String.join (processed.map fun line => Event.printed (fresh.handle frames line).events) ∧
      Event.logged j turn.events =
        String.join (processed.map fun line => Event.logged j (fresh.handle frames line).events) ∧
      turn.session =
        { s with failures := s.failures + processed.countP fun line => Refused (frames + 2) line } ∧
      (frames ≤ callerLimit → ∀ line ∈ processed, Formula.Low (Text.strip line) →
        (∃ status, (fresh.handle frames line).result = .ok status) ∧
        (Refused (frames + 2) line ↔ Refused frames line)) := by
  intro fresh processed turn
  have statuses : (fun line => (fresh.handle frames line).result) =
      statusOf s.exitOnError (frames + 2) :=
    funext fun line => (result_and_session_handle fresh frames line).1
  have processedEq : processed = handled s.exitOnError (frames + 2) lines := by
    simp only [processed, handled, ← statuses]
  have turnEq := handleLines_eq s frames fresh lines
  rw [← processedEq, ← statuses] at turnEq
  have events : turn.events = processed.flatMap fun line => (fresh.handle frames line).events :=
    congrArg Turn.events turnEq
  have printed := text_flatMap (rfl : Event.printed [] = "") Event.printed_append
    (fun line => (fresh.handle frames line).events) processed
  have logged := text_flatMap (rfl : Event.logged j [] = "") (Event.logged_append j)
    (fun line => (fresh.handle frames line).events) processed
  rw [← events] at printed logged
  refine ⟨congrArg Turn.result turnEq, printed, logged, congrArg Turn.session turnEq,
    fun few line _ low => ⟨?_, refused_iff_of_low low (by omega) (by omega)⟩⟩
  have caught := not_escapes_of_low low (Nat.add_le_add few (by decide : 2 ≤ 4))
  rw [congrFun statuses line]
  exact exists_statusOf s.exitOnError caught

theorem handleLines_fresh_until_exit :
    let turn := ({ failures := 2 } : Session).handleLines 1 ["A ^", " help ", "-A", "exit", "A"]
    turn.result = .ok [none, none, none, some 0] ∧ turn.session = { failures := 3 } ∧
      ∀ line ∈ ["A ^", " help ", "-A", "exit"], Refused 3 line ↔ Refused 1 line := by
  intro turn
  have processed : upTo (fun line => ends (({} : Session).handle 1 line).result)
      ["A ^", " help ", "-A", "exit", "A"] = ["A ^", " help ", "-A", "exit"] := by decide +kernel
  have low : ∀ line ∈ ["A ^", " help ", "-A", "exit"], Formula.Low (Text.strip line) := by
    decide +kernel
  obtain ⟨result, _, _, session, same⟩ := handleLines_fresh { failures := 2 } (.opened .info) 1
    ["A ^", " help ", "-A", "exit", "A"]
  rw [processed] at result session same
  refine ⟨result.trans (by decide +kernel), session.trans ?_, fun line member => ?_⟩
  · rw [show ["A ^", " help ", "-A", "exit"].countP (fun line => Refused 3 line) = 1 by
      decide +kernel]
  · exact (same (by decide) line member (low line member)).2

/-- The table of a chain of 497 letters can be built where the session is called, but not two frames
further in. -/
theorem handle_counts_accepted :
    let line := alternatingText "A" .conjunction .disjunction 496
    ¬ Refused 1 line ∧ (({} : Session).handle 1 line).result = .ok none ∧
      (({} : Session).handle 1 line).session = { failures := 1 } := by
  intro line
  obtain ⟨f, read, height, _⟩ := exists_alternating 496 (by decide)
  have refused : Refused 3 line := refused_of_tall read (by rw [height]; decide)
  have accepted : ¬ Refused 1 line := by
    obtain ⟨t, tabulated⟩ := Table.ofText_of_low read 1 (by rw [height]; decide)
    rintro ⟨_, cause, failed, _⟩
    cases tabulated.symm.trans failed
  obtain ⟨status, counted⟩ := result_and_session_handle {} 1 line
  refine ⟨accepted, ?_, ?_⟩
  · rw [status, statusOf_of_refused refused]
    rfl
  · rw [counted, counting, if_pos refused]

end Session

end Propositional
