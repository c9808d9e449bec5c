import Propositional.Proofs.Session.History

/-!
# The two loops of a session

`takeLines_eq` and `askLines_eq` give what the two loops do. Both handle the lines up to the first
that ends the session, so they print the same and count the same. They differ in the prompts, in
what stands around them, and in the status that they make of the end.
-/

set_option autoImplicit false

namespace Propositional

section FirstStatus

variable {ε α β : Type} {f : α → Except ε (Option β)} {items : List α}

theorem findSomeM?_cons_of_ends {item : α} {rest : List α} (last : ends (f item) = true) :
    (item :: rest).findSomeM? f = f item := by
  rw [List.findSomeM?]
  rcases given : f item with cause | _ | value
  · rfl
  · rw [given] at last
    cases last
  · rfl

theorem findSomeM?_cons_of_goesOn {item : α} {rest : List α} (given : f item = .ok none) :
    (item :: rest).findSomeM? f = rest.findSomeM? f := by
  rw [List.findSomeM?, given]
  rfl

theorem eq_none_of_not_ends {outcome : Except ε (Option β)} (goesOn : ¬ ends outcome = true) :
    outcome = .ok none := by
  rcases outcome with cause | _ | value
  · exact absurd rfl goesOn
  · rfl
  · exact absurd rfl goesOn

theorem findSomeM?_of_findIdx?_none (never : items.findIdx? (fun item => ends (f item)) = none) :
    items.findSomeM? f = .ok none := by
  induction items with
  | nil => rfl
  | cons first rest ih =>
      rw [List.findIdx?_eq_none_iff] at never
      obtain ⟨here, later⟩ := List.forall_mem_cons.mp never
      rw [findSomeM?_cons_of_goesOn (eq_none_of_not_ends (by simp [here])),
        ih (List.findIdx?_eq_none_iff.mpr later)]

/-- The first outcome that ends a list is that of the first item which ends it. -/
theorem findSomeM?_of_findIdx? {k : Nat}
    (found : items.findIdx? (fun item => ends (f item)) = some k) :
    ∃ item, items[k]? = some item ∧ item ∈ items.take (k + 1) ∧ items.findSomeM? f = f item := by
  induction items generalizing k with
  | nil => cases found
  | cons first rest ih =>
      rw [List.findIdx?_cons] at found
      by_cases last : ends (f first) = true
      · rw [if_pos last, Option.some.injEq] at found
        subst found
        exact ⟨first, rfl, by simp, findSomeM?_cons_of_ends last⟩
      · rw [if_neg last, Option.map_eq_some_iff] at found
        obtain ⟨i, later, rfl⟩ := found
        obtain ⟨item, here, inside, value⟩ := ih later
        exact ⟨item, here, List.mem_cons_of_mem first inside,
          (findSomeM?_cons_of_goesOn (eq_none_of_not_ends last)).trans value⟩

end FirstStatus

namespace Session

variable (s t : Session) (frames : Nat) (lines : List String)

/-- The line ends the session, be it that an error leaves it there. -/
def Stops (line : String) : Prop :=
  Text.strip line = "exit" ∨ (s.exitOnError = true ∧ Refused frames line) ∨ Escapes frames line

instance decidableStops (line : String) : Decidable (s.Stops frames line) :=
  inferInstanceAs (Decidable (_ ∨ _))

theorem ends_statusOf (line : String) :
    ends (statusOf s.exitOnError frames line) = decide (s.Stops frames line) := by
  unfold statusOf Stops
  split_ifs with isExit refused strict escapes
  · simp [isExit, ends]
  · simp [refused, strict, ends]
  · have caught : ¬ Escapes frames line := fun escapes => not_refused_of_escapes escapes refused
    simp [isExit, strict, caught, ends]
  · simp [escapes, ends]
  · simp [isExit, refused, escapes, ends]

def stop? : Option Nat :=
  lines.findIdx? fun line => s.Stops frames line

theorem stop?_eq :
    s.stop? frames lines = lines.findIdx? fun line => ends (statusOf s.exitOnError frames line) := by
  simp only [stop?, ends_statusOf]

theorem handled_eq :
    handled s.exitOnError frames lines =
      (s.stop? frames lines).elim lines fun k => lines.take (k + 1) := by
  rw [stop?_eq]
  rfl

theorem length_handled :
    (handled s.exitOnError frames lines).length =
      (s.stop? frames lines).elim lines.length (· + 1) := by
  rw [stop?_eq]
  exact length_upTo _ lines

def endOf (strict : Bool) : Except FormulaError (Option Nat) :=
  lines.findSomeM? (statusOf strict frames)

theorem status_cases :
    (s.stop? frames lines = none ∧ endOf frames lines s.exitOnError = .ok none) ∨
    ∃ k line, s.stop? frames lines = some k ∧ lines[k]? = some line ∧
      line ∈ handled s.exitOnError frames lines ∧
      ((endOf frames lines s.exitOnError = .ok (some 0) ∧
          ¬ Refused frames line ∧ ¬ Escapes frames line) ∨
        (endOf frames lines s.exitOnError = .ok (some 1) ∧ Refused frames line) ∨
        endOf frames lines s.exitOnError = .error .outOfFrames ∧ Escapes frames line) := by
  cases found : s.stop? frames lines with
  | none =>
      rw [stop?_eq] at found
      exact .inl ⟨rfl, findSomeM?_of_findIdx?_none found⟩
  | some k =>
      right
      have taken := handled_eq s frames lines
      rw [found, Option.elim_some] at taken
      obtain ⟨inside, ends, _⟩ := List.findIdx?_eq_some_iff_getElem.mp found
      rw [stop?_eq] at found
      obtain ⟨line, here, member, status⟩ := findSomeM?_of_findIdx? found
      rw [List.getElem?_eq_getElem inside, Option.some.injEq] at here
      rw [here, decide_eq_true_eq] at ends
      refine ⟨k, line, rfl, by rw [List.getElem?_eq_getElem inside, here], taken ▸ member, ?_⟩
      rw [endOf, status]
      rcases ends with isExit | ⟨strict, refused⟩ | escapes
      · exact .inl ⟨if_pos isExit, fun refused => ne_exit_of_formula refused.1 isExit,
          fun escapes => ne_exit_of_formula escapes.1 isExit⟩
      · exact .inr (.inl ⟨by rw [statusOf_of_refused refused, if_pos strict], refused⟩)
      · exact .inr (.inr ⟨statusOf_of_escapes escapes, escapes⟩)

/-! ## What the loops do -/

theorem takeLines_eq :
    s.takeLines frames lines =
      ⟨endOf (frames + 2) lines s.exitOnError,
        s.countingAll (frames + 2) (handled s.exitOnError (frames + 2) lines),
        (handled s.exitOnError (frames + 2) lines).flatMap fun line =>
          (t.handle frames line).events⟩ := by
  induction lines generalizing s with
  | nil => rfl
  | cons line rest ih =>
      have later := ih (s.counting (frames + 2) line)
      rw [exitOnError_counting] at later
      rw [takeLines, handled_cons, handle_eq s frames line t, endOf]
      rcases given : statusOf s.exitOnError (frames + 2) line with cause | _ | status
      · rw [findSomeM?_cons_of_ends (by rw [given]; rfl)]
        simp [given, ends, countingAll_cons, countingAll_nil]
      · rw [findSomeM?_cons_of_goesOn given]
        simp [later, ends, countingAll_cons, endOf]
      · rw [findSomeM?_cons_of_ends (by rw [given]; rfl)]
        simp [given, ends, countingAll_cons, countingAll_nil]

theorem askLines_eq :
    s.askLines frames lines =
      ⟨endOf (frames + 2) lines s.exitOnError,
        s.countingAll (frames + 2) (handled s.exitOnError (frames + 2) lines),
        ((handled s.exitOnError (frames + 2) lines).flatMap fun line =>
          .prompt :: (t.handle frames line).events) ++
            if s.stop? (frames + 2) lines = none then [.prompt] else []⟩ := by
  rw [stop?_eq]
  induction lines generalizing s with
  | nil => rfl
  | cons line rest ih =>
      have later := ih (s.counting (frames + 2) line)
      rw [exitOnError_counting] at later
      rw [askLines, handled_cons, handle_eq s frames line t, endOf, List.findIdx?_cons]
      rcases given : statusOf s.exitOnError (frames + 2) line with cause | _ | status
      · rw [findSomeM?_cons_of_ends (by rw [given]; rfl)]
        simp [given, ends, countingAll_cons, countingAll_nil]
      · rw [findSomeM?_cons_of_goesOn given]
        simp [later, ends, countingAll_cons, endOf]
      · rw [findSomeM?_cons_of_ends (by rw [given]; rfl)]
        simp [given, ends, countingAll_cons, countingAll_nil]

theorem events_runLines :
    (s.runLines frames lines).events =
      (handled s.exitOnError (frames + 3) lines).flatMap fun line =>
        (t.handle (frames + 1) line).events :=
  congrArg Turn.events (takeLines_eq s t (frames + 1) lines)

theorem session_runLines :
    (s.runLines frames lines).session =
      s.countingAll (frames + 3) (handled s.exitOnError (frames + 3) lines) :=
  congrArg Turn.session (takeLines_eq s s (frames + 1) lines)

theorem run_eq :
    s.run frames lines =
      ⟨(endOf (frames + 3) lines s.exitOnError).map (·.getD 0),
        s.countingAll (frames + 3) (handled s.exitOnError (frames + 3) lines),
        .record greeting ::
          ((handled s.exitOnError (frames + 3) lines).flatMap fun line =>
            .prompt :: (t.handle (frames + 1) line).events) ++
            (if s.stop? (frames + 3) lines = none then [.prompt, .line ""] else [])⟩ := by
  have ending := status_cases s (frames + 3) lines
  rw [run, converse, askLines_eq s t (frames + 1) lines]
  rcases ending with ⟨never, status⟩ | ⟨k, line, stops, _, _, ended⟩
  · simp [never, status, Except.map]
  · rcases ended with ⟨status, _⟩ | ⟨status, _⟩ | ⟨status, _⟩
    · simp [stops, status, Except.map]
    · simp [stops, status, Except.map]
    · simp [stops, status, Except.map]

theorem result_runLines {status : Option Nat}
    (ended : endOf (frames + 3) lines s.exitOnError = .ok status) :
    (s.runLines frames lines).result =
      .ok (if 0 < (s.runLines frames lines).session.failures then 1 else 0) := by
  have verdict : ∀ t : Session, t.verdict = if 0 < t.failures then 1 else 0 := by
    intro t
    unfold verdict
    split <;> split <;> omega
  have sessionEq := session_runLines s frames lines
  rw [sessionEq, runLines, settle, takeLines_eq s s (frames + 1) lines]
  rcases status_cases s (frames + 3) lines with
    ⟨_, given⟩ | ⟨k, line, _, _, member, ⟨given, _⟩ | ⟨given, refused⟩ | ⟨given, _⟩⟩
  · rw [given]
    exact congrArg Except.ok (verdict _)
  · rw [given]
    exact congrArg Except.ok (verdict _)
  · have counted : 0 < (handled s.exitOnError (frames + 3) lines).countP
        fun line => Refused (frames + 3) line :=
      List.countP_pos_iff.mpr ⟨line, member, decide_eq_true refused⟩
    have failed : 0 < (s.countingAll (frames + 3)
        (handled s.exitOnError (frames + 3) lines)).failures :=
      Nat.lt_of_lt_of_le counted (Nat.le_add_left _ _)
    rw [given, if_pos failed]
    rfl
  · cases given.symm.trans ended

theorem exists_endOf (caught : ∀ line ∈ lines, ¬ Escapes frames line) :
    ∃ status, endOf frames lines s.exitOnError = .ok status := by
  rcases status_cases s frames lines with ⟨_, given⟩ | ⟨k, line, _, here, _, ended⟩
  · exact ⟨_, given⟩
  · rcases ended with ⟨given, _⟩ | ⟨given, _⟩ | ⟨_, escapes⟩
    · exact ⟨_, given⟩
    · exact ⟨_, given⟩
    · exact absurd escapes (caught line (List.mem_of_getElem? here))

theorem result_runLines_fresh {status : Option Nat}
    (ended : endOf (frames + 3) lines s.exitOnError = .ok status) :
    (({ s with failures := 0 } : Session).runLines frames lines).result =
      .ok (if ∃ line ∈ handled s.exitOnError (frames + 3) lines, Refused (frames + 3) line
        then 1 else 0) := by
  let fresh : Session := { s with failures := 0 }
  have counted : 0 < (fresh.runLines frames lines).session.failures ↔
      ∃ line ∈ handled s.exitOnError (frames + 3) lines, Refused (frames + 3) line := by
    rw [session_runLines]
    simp [fresh, countingAll, List.countP_pos_iff]
  rw [result_runLines fresh frames lines ended]
  simp only [counted]

theorem result_runLines_new {status : Option Nat}
    (ended : endOf (frames + 3) lines s.exitOnError = .ok status) :
    (({ s with failures := 0 } : Session).runLines frames lines).result = .ok 0 ↔
      ∀ line ∈ handled s.exitOnError (frames + 3) lines, ¬ Refused (frames + 3) line := by
  rw [result_runLines_fresh s frames lines ended]
  split_ifs with refused
  · simpa using refused
  · simpa using refused

/-- A session that asks for its lines fails exactly if a refused one ends it, and is left by an
error exactly if one that is given them is. -/
theorem results :
    (∃ k line, s.stop? (frames + 3) lines = some k ∧ lines[k]? = some line ∧
      Escapes (frames + 3) line ∧ (s.run frames lines).result = .error .outOfFrames ∧
      (s.runLines frames lines).result = .error .outOfFrames) ∨
    ((((s.run frames lines).result = .ok 1 ∧ ∃ k line, s.stop? (frames + 3) lines = some k ∧
        lines[k]? = some line ∧ Refused (frames + 3) line) ∨
      (s.run frames lines).result = .ok 0 ∧ ∀ k line, s.stop? (frames + 3) lines = some k →
        lines[k]? = some line → ¬ Refused (frames + 3) line) ∧
      ∃ status, endOf (frames + 3) lines s.exitOnError = .ok status) := by
  rw [run_eq s s frames lines, runLines, settle, takeLines_eq s s (frames + 1) lines]
  dsimp only
  rcases status_cases s (frames + 3) lines with ⟨never, status⟩ | ⟨k, line, stops, here, _, ended⟩
  · rw [status, never]
    exact .inr ⟨.inr ⟨rfl, nofun⟩, _, rfl⟩
  · rcases ended with ⟨status, accepted, _⟩ | ⟨status, refused⟩ | ⟨status, escapes⟩
    · rw [status]
      refine .inr ⟨.inr ⟨rfl, fun i other place found => ?_⟩, _, rfl⟩
      cases stops.symm.trans place
      cases here.symm.trans found
      exact accepted
    · rw [status]
      exact .inr ⟨.inl ⟨rfl, k, line, stops, here, refused⟩, _, rfl⟩
    · rw [status]
      exact .inl ⟨k, line, stops, here, escapes, rfl, rfl⟩

/-! ## What the loops show -/

theorem prompts_lines (texts : List String) : Event.prompts (texts.map .line) = 0 := by
  simp [Event.prompts, Event.isPrompt]

theorem prompts_records (written : List Record) : Event.prompts (written.map .record) = 0 := by
  simp [Event.prompts, Event.isPrompt]

theorem prompts_showTable (source : String) :
    Event.prompts (t.showTable frames source).events = 0 := by
  cases printed : Grid.ofText source (frames + 1) with
  | ok texts => rw [showTable_of_ok printed, Event.prompts_append, prompts_records, prompts_lines]
  | error cause =>
      by_cases refusal : cause.IsRefusal
      · rw [showTable_of_refusal printed refusal, prompts_records]
      · rw [showTable_of_escape printed refusal, prompts_records]

theorem prompts_handle (line : String) : Event.prompts (t.handle frames line).events = 0 := by
  rcases handle_cases frames line with ⟨_, handled⟩ | ⟨_, handled⟩ | ⟨_, handled⟩ | ⟨_, handled⟩
  · rw [handled]
    rfl
  · rw [handled]
    exact prompts_lines legend
  · rw [handled]
    rfl
  · rw [handled]
    dsimp only
    exact prompts_showTable t (frames + 1) _

theorem prompts_given :
    Event.prompts (lines.flatMap fun line => (t.handle frames line).events) = 0 := by
  induction lines with
  | nil => rfl
  | cons line rest ih => rw [List.flatMap_cons, Event.prompts_append, prompts_handle, ih]

theorem prompts_asked :
    Event.prompts (lines.flatMap fun line => .prompt :: (t.handle frames line).events) =
      lines.length := by
  induction lines with
  | nil => rfl
  | cons line rest ih =>
      have one : Event.prompts (.prompt :: (t.handle frames line).events) = 1 := by
        rw [← List.singleton_append, Event.prompts_append, prompts_handle]
        rfl
      rw [List.flatMap_cons, Event.prompts_append, one, ih, List.length_cons, Nat.add_comm]

variable (f : String → List Event)

theorem printed_asked :
    Event.printed (lines.flatMap fun line => .prompt :: f line) =
      Event.printed (lines.flatMap f) := by
  have asked := text_flatMap (rfl : Event.printed [] = "") Event.printed_append
    (fun line => .prompt :: f line) lines
  have given := text_flatMap (rfl : Event.printed [] = "") Event.printed_append f lines
  rw [asked, given]
  rfl

theorem logged_asked (j : Journal) :
    Event.logged j (lines.flatMap fun line => .prompt :: f line) =
      Event.logged j (lines.flatMap f) := by
  have asked := text_flatMap (rfl : Event.logged j [] = "") (Event.logged_append j)
    (fun line => .prompt :: f line) lines
  have given := text_flatMap (rfl : Event.logged j [] = "") (Event.logged_append j) f lines
  rw [asked, given]
  rfl

theorem logged_greeting (j : Journal) :
    Event.logged j [.record greeting] = j.entry greeting := by
  simp [Event.logged, Event.records, Event.record?, Journal.shown]

section Ending

variable (stop : Option Nat)

theorem printed_ending :
    Event.printed (if stop = none then [.prompt, .line ""] else []) =
      if stop = none then "\n" else "" := by
  split <;> rfl

theorem logged_ending (j : Journal) :
    Event.logged j (if stop = none then [.prompt, .line ""] else []) = "" := by
  split <;> rfl

theorem prompts_ending :
    Event.prompts (if stop = none then [.prompt, .line ""] else []) =
      if stop = none then 1 else 0 := by
  split <;> rfl

end Ending

/-- Whether lines are given or asked for, the same ones are handled: those up to the first that ends
the session, with the same failures and the same text. A session that asks for them prints one more
empty line if none of them ends it, records its greeting first, and asks once for each line handled
and once more at the end of the lines. An error that leaves a line leaves both. Otherwise the status
of the session that asks tells whether a refused line has ended it, and that of the session that was
given its lines whether a formula was ever refused. Up to 401 levels no error leaves a line, and the
lines that are refused are those that are refused here. -/
theorem run_agrees_with_runLines (s : Session) (j : Journal) (frames : Nat) (lines : List String) :
    let stop := lines.findIdx? fun line => s.Stops (frames + 3) line
    let taken := stop.elim lines fun k => lines.take (k + 1)
    let asked := s.run frames lines
    let given := s.runLines frames lines
    given.events = taken.flatMap (fun line => (s.handle (frames + 1) line).events) ∧
      asked.events = .record greeting ::
        taken.flatMap (fun line => .prompt :: (s.handle (frames + 1) line).events) ++
          (if stop = none then [.prompt, .line ""] else []) ∧
      given.session =
        { s with failures := s.failures + taken.countP fun line => Refused (frames + 3) line } ∧
      asked.session = given.session ∧
      Event.printed asked.events =
        Event.printed given.events ++ (if stop = none then "\n" else "") ∧
      Event.logged j asked.events = j.entry greeting ++ Event.logged j given.events ∧
      Event.prompts asked.events = stop.elim (lines.length + 1) (· + 1) ∧
      Event.prompts given.events = 0 ∧
      ((∃ k line, stop = some k ∧ lines[k]? = some line ∧ Escapes (frames + 3) line ∧
          asked.result = .error .outOfFrames ∧ given.result = .error .outOfFrames) ∨
        ((asked.result = .ok 1 ∧
            ∃ k line, stop = some k ∧ lines[k]? = some line ∧ Refused (frames + 3) line) ∨
          asked.result = .ok 0 ∧
            ∀ k line, stop = some k → lines[k]? = some line → ¬ Refused (frames + 3) line) ∧
        given.result = .ok (if 0 < given.session.failures then 1 else 0) ∧
        ((({ s with failures := 0 } : Session).runLines frames lines).result = .ok 0 ↔
          ∀ line ∈ taken, ¬ Refused (frames + 3) line)) ∧
      (frames ≤ callerLimit → ∀ line ∈ lines, Formula.Low (Text.strip line) →
        ¬ Escapes (frames + 3) line ∧ (Refused (frames + 3) line ↔ Refused frames line)) := by
  intro stop taken asked given
  have takenEq : handled s.exitOnError (frames + 3) lines = taken := handled_eq s (frames + 3) lines
  have count : taken.length = stop.elim lines.length (· + 1) :=
    takenEq ▸ length_handled s (frames + 3) lines
  have givenEvents : given.events = _ := events_runLines s s frames lines
  have givenSession : given.session = _ := session_runLines s frames lines
  have askedEq : asked = _ := run_eq s s frames lines
  have askedSession : asked.session = given.session := by rw [askedEq, givenSession]
  have askedEvents : asked.events = .record greeting ::
      taken.flatMap (fun line => .prompt :: (s.handle (frames + 1) line).events) ++
        (if stop = none then [.prompt, .line ""] else []) := by
    rw [askedEq, takenEq]
    rfl
  rw [takenEq] at givenEvents givenSession
  refine ⟨givenEvents, askedEvents, givenSession, askedSession, ?_, ?_, ?_, ?_, ?_,
    fun few line _ low => ⟨not_escapes_of_low low (by omega),
      refused_iff_of_low low (by omega) (by omega)⟩⟩
  · rw [askedEvents, givenEvents, Event.printed_append, printed_ending, ← printed_asked]
    rfl
  · rw [askedEvents, givenEvents, Event.logged_append, logged_ending, String.append_empty,
      ← logged_asked, ← logged_greeting, ← Event.logged_append]
    rfl
  · have greeted : Event.prompts (.record greeting ::
        taken.flatMap fun line => .prompt :: (s.handle (frames + 1) line).events) = taken.length :=
      prompts_asked s (frames + 1) taken
    rw [askedEvents, Event.prompts_append, prompts_ending, greeted, count]
    cases stop <;> rfl
  · rw [givenEvents]
    exact prompts_given s (frames + 1) taken
  · rcases results s frames lines with escaped | ⟨statuses, status, ended⟩
    · exact .inl escaped
    · exact .inr ⟨statuses, result_runLines s frames lines ended,
        takenEq ▸ result_runLines_new s frames lines ended⟩

/-- The session that asks ends well, the one that was given the lines has refused one of them. -/
theorem run_agrees_with_runLines_until_exit :
    let lines := ["A ^", "exit", "A"]
    (({} : Session).run 1 lines).result = .ok 0 ∧ (({} : Session).runLines 1 lines).result = .ok 1 ∧
      (({} : Session).run 1 lines).session = { failures := 1 } ∧
      Event.prompts (({} : Session).run 1 lines).events = 2 ∧
      ∀ line ∈ lines, ¬ Escapes 4 line ∧ (Refused 4 line ↔ Refused 1 line) := by
  intro lines
  have stop : (lines.findIdx? fun line => ({} : Session).Stops 4 line) = some 1 := by decide +kernel
  have low : ∀ line ∈ lines, Formula.Low (Text.strip line) := by decide +kernel
  obtain ⟨_, _, counted, same, _, _, prompts, _, results, caught⟩ :=
    run_agrees_with_runLines {} (.opened .info) 1 lines
  rw [stop] at counted prompts results
  have failures : 0 + ((lines.take 2).countP fun line => Refused 4 line) = 1 := by decide +kernel
  have session : (({} : Session).runLines 1 lines).session = { failures := 1 } :=
    counted.trans (congrArg (Session.mk false) failures)
  have accepted : ¬ Refused 4 "exit" := by decide +kernel
  have atExit {line : String} (here : lines[1]? = some line) : line = "exit" :=
    (Option.some.inj here).symm
  rcases results with ⟨k, line, place, here, escapes, _⟩ | ⟨ended, given, _⟩
  · cases place
    exact absurd (atExit here ▸ escapes) (caught (by decide) "exit" (by decide) (low _ (by decide))).1
  · rw [session] at given
    rcases ended with ⟨_, k, line, place, here, refused⟩ | ⟨asked, _⟩
    · cases place
      exact absurd (atExit here ▸ refused) accepted
    · exact ⟨asked, given, same.trans session, prompts, fun line member =>
        caught (by decide) line member (low line member)⟩

/-- A session that is given a chain of 496 letters is left by an error, though a table is built
where the session is called. -/
theorem runLines_escapes :
    let line := alternatingText "A" .conjunction .disjunction 495
    (∃ t, Table.ofText (Text.strip line) 1 = .ok t) ∧
      (({} : Session).runLines 1 [line]).result = .error .outOfFrames ∧
      (({} : Session).run 1 [line]).result = .error .outOfFrames := by
  intro line
  obtain ⟨f, read, height, compound⟩ := exists_alternating 495 (by decide)
  have tabulated := Table.ofText_of_low read 1 (by rw [height]; decide)
  have escapes : Escapes 4 line :=
    escapes_of_deep read (by rw [height]; decide) (by rw [height]; decide) (compound (by decide))
  have ended : endOf 4 [line] false = .error .outOfFrames := by
    have status : statusOf false 4 line = .error .outOfFrames := statusOf_of_escapes escapes
    rw [endOf, findSomeM?_cons_of_ends (by rw [status]; rfl), status]
  refine ⟨tabulated, ?_, ?_⟩
  · rw [runLines, settle, takeLines_eq {} {}, ended]
    rfl
  · rw [run_eq {} {}, ended]
    rfl

end Session

end Propositional
