import Propositional.Proofs.Reading.Progress

/-!
# The right operand by descent

The right operand of a connective is read by a loop with a working stack. `turns_of_absorbs`: the
loop begins at most one turn, in which the operator finds one expression on the stack, the operand
read before, and its own expression reaches to the end of the run.

`absorb_and_descend`: the loop comes to the same end as a recursion without a stack, which reads one
expression and, if the connective follows, passes it and reads the rest of the run one level deeper.
`chain_descends` says so of every place and depth of a reading.
-/

set_option autoImplicit false

namespace Propositional

namespace Cursor

/-! ## The turns of the loop -/

/-- A turn of the loop: the cursor at which it begins, and the working stack that it gives to the
reader. -/
structure Turn where
  start : Cursor
  stack : List Formula

/-- From a working stack and an operand, the loop for the connective `c` begins these turns and
comes to this end. -/
inductive Absorbs (track : List Token) (read : Reader) (c : Connective) :
    List Formula → Formula → Cursor → List Turn → Except Fault Formula × Cursor → Prop where
  | stops {stack : List Formula} {operand : Formula} {here : Cursor} {token : Token}
      (next : current track here = some (.ok token, here)) (other : token.kind ≠ .connective c) :
      Absorbs track read c stack operand here [] (.ok operand, here)
  | strays {stack : List Formula} {operand : Formula} {here : Cursor}
      (gone : current track here = some (.error .outside, here)) :
      Absorbs track read c stack operand here [] (.error .outside, here)
  | breaks {stack : List Formula} {operand : Formula} {here there : Cursor} {token : Token}
      {fault : Fault} (next : current track here = some (.ok token, here))
      (same : token.kind = .connective c)
      (broken : read (operand :: stack) here = some (.error fault, there)) :
      Absorbs track read c stack operand here [⟨here, operand :: stack⟩] (.error fault, there)
  | turns {stack below : List Formula} {operand formula : Formula} {here there : Cursor}
      {token : Token} {made : List Turn} {ended : Except Fault Formula × Cursor}
      (next : current track here = some (.ok token, here)) (same : token.kind = .connective c)
      (step : read (operand :: stack) here = some (.ok (formula, below), there))
      (later : Absorbs track read c below formula there made ended) :
      Absorbs track read c stack operand here (⟨here, operand :: stack⟩ :: made) ended

section Turns

variable {track : List Token} {read : Reader} {c : Connective} {stack : List Formula}
  {operand : Formula} {here : Cursor} {ended : Except Fault Formula × Cursor}

theorem current_cases (track : List Token) (here : Cursor) :
    (∃ token, current track here = some (.ok token, here)) ∨
      current track here = some (.error .outside, here) := by
  unfold current
  cases track[here.position]? with
  | some token => exact .inl ⟨token, rfl⟩
  | none => exact .inr rfl

theorem exists_absorbs {rounds : Nat}
    (run : absorb track read c rounds stack operand here = some ended) :
    ∃ turns, Absorbs track read c stack operand here turns ended := by
  induction rounds generalizing stack operand here with
  | zero => cases run
  | succ rounds ih =>
      rw [absorb] at run
      rcases current_cases track here with ⟨token, next⟩ | gone
      · rw [bind_of_ok next] at run
        by_cases same : token.kind = .connective c
        · rw [if_pos same] at run
          cases step : read (operand :: stack) here with
          | none =>
              rw [bind_of_none step] at run
              cases run
          | some reached =>
              obtain ⟨outcome, there⟩ := reached
              cases outcome with
              | ok value =>
                  rw [bind_of_ok step] at run
                  obtain ⟨made, later⟩ := ih run
                  exact ⟨_, .turns next same step later⟩
              | error fault =>
                  rw [bind_of_error step] at run
                  cases run
                  exact ⟨_, .breaks next same step⟩
        · rw [if_neg same] at run
          cases run
          exact ⟨[], .stops next same⟩
      · rw [bind_of_error gone] at run
        cases run
        exact ⟨[], .strays gone⟩

theorem absorbs_iff :
    (∃ rounds, absorb track read c rounds stack operand here = some ended) ↔
      ∃ turns, Absorbs track read c stack operand here turns ended := by
  constructor
  · rintro ⟨rounds, run⟩
    exact exists_absorbs run
  · rintro ⟨turns, absorbs⟩
    induction absorbs with
    | stops next other => exact ⟨1, by rw [absorb, bind_of_ok next, if_neg other]; rfl⟩
    | strays gone => exact ⟨1, by rw [absorb, bind_of_error gone]⟩
    | breaks next same broken =>
        exact ⟨1, by rw [absorb, bind_of_ok next, if_pos same, bind_of_error broken]⟩
    | turns next same step later ih =>
        obtain ⟨rounds, run⟩ := ih
        exact ⟨rounds + 1, by rw [absorb, bind_of_ok next, if_pos same, bind_of_ok step]; exact run⟩

end Turns

/-! ## Recursion without loop and stack -/

section Passages

variable (track : List Token) (read : Reader)

/-- Reads the right operand of the connective `c` by recursion: one expression, and if the
connective follows, the rest of the run one level deeper. -/
def descend (c : Connective) : Nat → Passage Formula
  | 0 => unending
  | rounds + 1 => do
      let (operand, _) ← read []
      let token ← current track
      if token.kind = .connective c then
        let _ ← advance track
        let right ← deeper (descend c rounds)
        return .binary c operand right
      else return operand

def operation (rounds : Nat) (c : Connective) (left : Formula) :
    Passage (Formula × List Formula) :=
  calling .expression <| deeper do
    let _ ← advance track
    let right ← chain track read rounds c
    return (.binary c left right, [])

end Passages

/-! ## What is known behind an expression -/

section Readers

variable {tokens rest tail : List Token} {token : Token} {here middle : Cursor} {rounds : Nat}
  {c : Connective} {operand formula : Formula} {stack below : List Formula}

theorem expression_follows_at (stack : List Formula) (stands : Stands tokens here.position rest)
    (enough : rest.length < rounds) :
    Follows tokens here 0 (GivesExpression tokens) (expression (track tokens) rounds stack here)
      (Formula.expression (TokenInput.ofSequence tokens) (nestingLimit - here.depth) stack rest) :=
  expression_follows rfl stack rest here stands rfl enough

theorem current_of_not_ahead {kind : Kind} (goesOn : kind ≠ .finish)
    (stands : Stands tokens here.position rest) (other : ¬ Token.Ahead kind rest) :
    ∃ next, current (track tokens) here = some (.ok next, here) ∧ next.kind ≠ kind := by
  cases rest with
  | nil =>
      refine ⟨_, current_of_end stands, ?_⟩
      rw [Token.kind_firstFinish]
      exact goesOn.symm
  | cons token later => exact ⟨token, current_of_stands stands, other⟩

theorem ahead_of_current {next : Token} {kind : Kind} (goesOn : kind ≠ .finish)
    (stands : Stands tokens here.position rest)
    (found : current (track tokens) here = some (.ok next, here)) (same : next.kind = kind) :
    ∃ tail, rest = next :: tail := by
  cases rest with
  | nil =>
      rw [current_of_end stands] at found
      cases found
      exact absurd (same.symm.trans (Token.kind_firstFinish tokens)) goesOn
  | cons token later =>
      rw [current_of_stands stands] at found
      cases found
      exact ⟨later, rfl⟩

theorem behind_expression (stands : Stands tokens here.position rest)
    (enough : rest.length < rounds)
    (run : expression (track tokens) rounds [] here = some (.ok (operand, stack), middle)) :
    stack = [] ∧ middle.depth = here.depth ∧ here.depth < nestingLimit ∧
      ∃ later, Stands tokens middle.position later ∧ later.length < rest.length := by
  have follows := expression_follows_at [] stands enough
  rw [run] at follows
  have level := follows.progress.depth_eq
  obtain ⟨step, readRun, same, after⟩ := follows.of_ok
  cases same
  obtain ⟨used, _, adds⟩ := Formula.expression_sound _ _ [] rest step readRun
  refine ⟨?_, level, ?_, step.rest, after, step.shorter⟩
  · rcases adds with ⟨_, _, stackEq⟩ | ⟨_, _, _, stackEq⟩
    · exact stackEq.symm
    · cases stackEq
  · by_contra deep
    rw [Nat.sub_eq_zero_of_le (Nat.le_of_not_lt deep)] at readRun
    cases readRun

theorem behind_operator (stands : Stands tokens here.position (token :: tail))
    (enough : (token :: tail).length < rounds) (same : token.kind = .connective c)
    (run : expression (track tokens) rounds stack here = some (.ok (formula, below), middle)) :
    ∃ next, current (track tokens) middle = some (.ok next, middle) ∧
      next.kind ≠ .connective c := by
  have follows := expression_follows_at stack stands enough
  rw [run] at follows
  obtain ⟨step, readRun, _, after⟩ := follows.of_ok
  have stops := Formula.not_ahead_of_operator _ stack token tail same step readRun
  exact current_of_not_ahead Kind.noConfusion after stops

/-! ## The operator in the loop -/

theorem chain_succ (c : Connective) (stands : Stands tokens here.position rest)
    (enough : rest.length < rounds) :
    chain (track tokens) (expression (track tokens) (rounds + 1)) (rounds + 1) c here =
      chain (track tokens) (expression (track tokens) rounds) rounds c here := by
  obtain ⟨outcome, finish, run⟩ :=
    (chain_follows (expression_follows rfl) c stands rfl enough).exists_ended
  exact (chain_extends (expression_extends rounds) rounds c here _ run).trans run.symm

theorem expression_operator (left : Formula) (stands : Stands tokens here.position (token :: tail))
    (enough : (token :: tail).length < rounds) (same : token.kind = .connective c)
    (level : here.depth < nestingLimit) :
    expression (track tokens) rounds [left] here =
      operation (track tokens) (expression (track tokens) rounds) rounds c left here := by
  obtain ⟨fewer, rfl⟩ := Nat.exists_eq_add_of_lt (Nat.zero_lt_of_lt enough)
  rw [Nat.zero_add] at enough ⊢
  rw [expression, operation]
  refine calling_congr_at (deeper_congr_at ?_)
  have inside : Stands tokens here.entered.position (token :: tail) := stands
  have looked : (get : Passage Cursor) here.entered = some (.ok here.entered, here.entered) := rfl
  have allowed : ¬ nestingLimit < here.entered.depth := Nat.not_lt_of_le level
  rw [bind_of_ok (current_of_stands inside), bind_of_ok looked, if_neg allowed, beginning, same]
  dsimp only
  rw [bind_of_ok (advance_of_stands inside), bind_of_ok (advance_of_stands inside)]
  refine bind_congr_at ?_ fun right there _ => rfl
  exact (chain_succ c inside.step (Nat.lt_of_succ_lt_succ enough)).symm

theorem turns_of_absorbs {turns : List Turn} {ended : Except Fault Formula × Cursor}
    (stands : Stands tokens here.position rest) (enough : rest.length < rounds)
    (absorbs : Absorbs (track tokens) (expression (track tokens) rounds) c stack operand here turns
      ended) :
    turns = [] ∨ turns = [⟨here, operand :: stack⟩] ∧
      ∃ token tail, rest = token :: tail ∧ token.kind = .connective c := by
  cases absorbs with
  | stops next other => exact .inl rfl
  | strays gone => exact .inl rfl
  | breaks next same broken =>
      obtain ⟨tail, rfl⟩ := ahead_of_current Kind.noConfusion stands next same
      exact .inr ⟨rfl, _, tail, rfl, same⟩
  | turns next same step later =>
      obtain ⟨tail, rfl⟩ := ahead_of_current Kind.noConfusion stands next same
      obtain ⟨behind, found, other⟩ := behind_operator stands enough same step
      cases later with
      | stops _ _ => exact .inr ⟨rfl, _, tail, rfl, same⟩
      | strays gone => exact .inr ⟨rfl, _, tail, rfl, same⟩
      | breaks again more _ =>
          rw [found] at again
          cases again
          exact absurd more other
      | turns again more _ _ =>
          rw [found] at again
          cases again
          exact absurd more other

theorem absorb_of_other {limit : Nat} {next : Token} (read : Reader) (stack : List Formula)
    (operand : Formula) (turns : 0 < limit)
    (found : current (track tokens) here = some (.ok next, here))
    (other : next.kind ≠ .connective c) :
    absorb (track tokens) read c limit stack operand here = some (.ok operand, here) := by
  obtain ⟨limit, rfl⟩ := Nat.exists_eq_add_of_lt turns
  rw [absorb, bind_of_ok found, if_neg other]
  rfl

theorem operation_of_chain {read : Reader} {outcome : Except Fault Formula} (left : Formula)
    (stands : Stands tokens here.position (token :: tail))
    (run : chain (track tokens) read rounds c here.passed.entered = some (outcome, middle)) :
    ∃ calls, operation (track tokens) read rounds c left here =
      some (outcome.map fun right => (.binary c left right, []),
        { middle.left with calls := calls }) := by
  have inside : Stands tokens here.entered.position (token :: tail) := stands
  refine ⟨_, calling_of_some (deeper_of_some ?_)⟩
  rw [bind_of_ok (advance_of_stands inside)]
  exact bind_pure_of_some _ run

theorem absorb_of_chain {limit : Nat} {outcome : Except Fault Formula} (operand : Formula)
    (stands : Stands tokens here.position (token :: tail))
    (enough : (token :: tail).length < rounds) (same : token.kind = .connective c)
    (level : here.depth < nestingLimit) (turns : 1 < limit)
    (run : chain (track tokens) (expression (track tokens) rounds) rounds c here.passed.entered =
      some (outcome, middle)) :
    ∃ calls, absorb (track tokens) (expression (track tokens) rounds) c limit [] operand here =
      some (outcome.map (.binary c operand), { middle.left with calls := calls }) := by
  obtain ⟨limit, rfl⟩ := Nat.exists_eq_add_of_lt turns
  obtain ⟨calls, operated⟩ := operation_of_chain operand stands run
  have turn := (expression_operator operand stands enough same level).trans operated
  refine ⟨calls, ?_⟩
  rw [absorb, bind_of_ok (current_of_stands stands), if_pos same]
  cases outcome with
  | ok right =>
      obtain ⟨next, found, other⟩ := behind_operator stands enough same turn
      rw [bind_of_ok turn]
      exact absorb_of_other _ [] _ (by omega) found other
  | error fault => exact bind_of_error turn

/-! ## The recursion -/

/-- The loop and the recursion come to one end, at one place, and pass the same tokens. Only the
calls that they note on the way are not the same. -/
theorem absorb_and_descend (c : Connective) {limit : Nat} (stands : Stands tokens here.position rest)
    (enough : rest.length < rounds) (turns : rest.length < limit) :
    ∃ (outcome : Except Fault Formula) (finish : Cursor) (calls : List Call),
      (do
        let (operand, stack) ← expression (track tokens) rounds []
        absorb (track tokens) (expression (track tokens) rounds) c rounds stack operand) here =
          some (outcome, finish) ∧
      descend (track tokens) (expression (track tokens) rounds) c limit here =
        some (outcome, { finish with calls := calls }) := by
  induction limit generalizing rest here with
  | zero => exact absurd turns (Nat.not_lt_zero _)
  | succ limit ih =>
      obtain ⟨first, middle, run⟩ := (expression_follows_at [] stands enough).exists_ended
      rw [descend]
      cases first with
      | error fault =>
          exact ⟨.error fault, middle, middle.calls, bind_of_error run, bind_of_error run⟩
      | ok value =>
          obtain ⟨operand, stack⟩ := value
          obtain ⟨rfl, level, allowed, later, after, shorter⟩ := behind_expression stands enough run
          have fewer := Nat.lt_trans shorter enough
          have left := Nat.lt_of_lt_of_le shorter (Nat.le_of_lt_succ turns)
          rw [bind_of_ok run, bind_of_ok run]
          dsimp only
          by_cases ahead : Token.Ahead (.connective c) later
          · cases later with
            | nil => exact absurd ahead id
            | cons token tail =>
                have same : token.kind = .connective c := ahead
                have inside : Stands tokens middle.passed.entered.position tail := after.step
                obtain ⟨outcome, finish, calls, absorbed, descended⟩ :=
                  ih inside (Nat.lt_of_succ_lt fewer) (Nat.lt_of_succ_lt left)
                obtain ⟨noted, turned⟩ := absorb_of_chain operand after fewer same
                  (level ▸ allowed) (Nat.lt_of_le_of_lt (Nat.le_add_left 1 _) fewer)
                  (calling_of_some absorbed)
                rw [turned, bind_of_ok (current_of_stands after), if_pos same,
                  bind_of_ok (advance_of_stands after)]
                exact ⟨_, _, calls, rfl,
                  bind_pure_of_some (Formula.binary c operand) (deeper_of_some descended)⟩
          · obtain ⟨next, found, other⟩ := current_of_not_ahead Kind.noConfusion after ahead
            rw [absorb_of_other _ [] operand (Nat.zero_lt_of_lt enough) found other,
              bind_of_ok found, if_neg other]
            exact ⟨.ok operand, middle, middle.calls, rfl, rfl⟩

/-! ## Calls of a reading -/

theorem exists_stands {position : Nat} (within : position ≤ (Token.beforeFinish tokens).length) :
    ∃ rest, Stands tokens position rest :=
  ⟨(Token.beforeFinish tokens).drop position, (Token.beforeFinish tokens).take position,
    (List.take_append_drop _ _).symm, List.length_take_of_le within⟩

theorem stands_of_call {outcome : Except Fault Formula} {last : Cursor}
    (ended : parse (track tokens) rounds {} = some (outcome, last)) {call : Call}
    (made : call ∈ last.calls) : ∃ rest, Stands tokens call.start.position rest := by
  have more := parse_extends_add rounds ((Token.beforeFinish tokens).length + 1) {} _ ended
  have enough : (Token.beforeFinish tokens).length <
      rounds + ((Token.beforeFinish tokens).length + 1) := by omega
  have follows := parse_follows enough
  rw [more] at follows
  obtain ⟨_, _, _, sound, _⟩ := follows.progress.of_start
  exact exists_stands (Nat.le_trans (sound call made).forward (sound call made).within)

theorem chain_outcome {outcome : Except Fault Formula} (stands : Stands tokens here.position rest)
    (enough : rest.length < rounds)
    (run : chain (track tokens) (expression (track tokens) rounds) rounds c here =
      some (outcome, middle)) :
    outcome = ((Formula.chain (Formula.expression (TokenInput.ofSequence tokens)
        (nestingLimit - here.depth)) (TokenInput.ofSequence tokens) c rest).map
          (·.formula)).mapError .refused ∧
      ∀ operand, outcome = .ok operand →
        ∃ later, Stands tokens middle.position later ∧ ¬ Token.Ahead (.connective c) later := by
  have follows := chain_follows (expression_follows rfl) c stands rfl enough
  rw [run] at follows
  cases outcome with
  | ok operand =>
      obtain ⟨right, readRun, same, after⟩ := follows.of_ok
      rw [readRun, same]
      exact ⟨rfl, fun _ _ => ⟨right.rest, after, Formula.not_ahead_of_chain rest right readRun⟩⟩
  | error fault =>
      obtain ⟨cause, same, readRun⟩ := follows.of_error
      rw [readRun, same]
      refine ⟨rfl, fun operand returned => ?_⟩
      cases returned

end Readers

/-! ## Whole right operands -/

/-- The right operand of a connective is read by descent. The calls of a reading begin before the
end of the tokens, or at it. From every such place and at every depth, the loop and the recursion
come to the outcome that reading has without a cursor, at one place and with the same tokens
passed; and if they give back an operand, the connective does not follow there. The loop begins at
most one turn. In it the operator gets the operand read before as the only expression of its stack,
at a depth that is not too deep, and is not refused itself. -/
theorem chain_descends (tokens : List Token) (c : Connective) :
    (∀ rounds outcome last, parse (track tokens) rounds {} = some (outcome, last) →
      ∀ call ∈ last.calls, ∃ rest, Stands tokens call.start.position rest) ∧
    ∀ (rest : List Token) (here : Cursor) (rounds : Nat),
      Stands tokens here.position rest → rest.length < rounds →
      let input := TokenInput.ofSequence tokens
      let read := expression (track tokens) rounds
      ∃ (outcome : Except Fault Formula) (finish : Cursor) (calls : List Call),
        chain (track tokens) read rounds c here =
          some (outcome, finish.noting ⟨.chain, here.toPlace, finish.toPlace, outcome.isOk⟩) ∧
        outcome = ((Formula.chain (Formula.expression input (nestingLimit - here.depth)) input c
          rest).map (·.formula)).mapError .refused ∧
        descend (track tokens) read c rounds here = some (outcome, { finish with calls := calls }) ∧
        (∀ operand, outcome = .ok operand →
          ∃ next, current (track tokens) finish = some (.ok next, finish) ∧
            next.kind ≠ .connective c) ∧
        ∀ operand stack middle, read [] here = some (.ok (operand, stack), middle) →
          (∃ turns, Absorbs (track tokens) read c stack operand middle turns (outcome, finish)) ∧
          ∀ turns ended, Absorbs (track tokens) read c stack operand middle turns ended →
            turns.length ≤ 1 ∧ ∀ turn ∈ turns,
              turn.stack = [operand] ∧ turn.start.depth < nestingLimit ∧
              read turn.stack turn.start =
                operation (track tokens) read rounds c operand turn.start := by
  refine ⟨fun _ _ _ ended call made => stands_of_call ended made, ?_⟩
  intro rest here rounds stands enough input read
  obtain ⟨outcome, finish, calls, absorbed, descended⟩ := absorb_and_descend c stands enough enough
  have chained : chain (track tokens) read rounds c here =
      some (outcome, finish.noting ⟨.chain, here.toPlace, finish.toPlace, outcome.isOk⟩) :=
    calling_of_some absorbed
  obtain ⟨sameOutcome, stops⟩ := chain_outcome stands enough chained
  refine ⟨outcome, finish, calls, chained, sameOutcome, descended, ?_, ?_⟩
  · intro operand returned
    obtain ⟨later, after, other⟩ := stops operand returned
    exact current_of_not_ahead Kind.noConfusion after other
  · intro operand stack middle run
    obtain ⟨rfl, level, allowed, later, after, shorter⟩ := behind_expression stands enough run
    have fewer := Nat.lt_trans shorter enough
    rw [bind_of_ok run] at absorbed
    refine ⟨absorbs_iff.mp ⟨rounds, absorbed⟩, fun turns ended absorbs => ?_⟩
    rcases turns_of_absorbs after fewer absorbs with rfl | ⟨rfl, token, tail, rfl, same⟩
    · exact ⟨Nat.zero_le _, List.forall_mem_nil _⟩
    · refine ⟨Nat.le_refl _, List.forall_mem_singleton.mpr ⟨rfl, level ▸ allowed, ?_⟩⟩
      exact expression_operator operand after fewer same (level ▸ allowed)

/-- The right operand behind the first of two conjunctions, in a reading that comes to it. The loop
makes its one turn at the second of them, and the disjunction is left for what is outside. -/
theorem chain_descends_negation :
    let tokens : List Token := [⟨.atom, "A", 0⟩, ⟨.connective .conjunction, "^", 2⟩,
      ⟨.negation, "-", 4⟩, ⟨.atom, "B", 5⟩, ⟨.connective .conjunction, "^", 7⟩, ⟨.atom, "C", 9⟩,
      ⟨.connective .disjunction, "v", 11⟩, ⟨.atom, "D", 13⟩]
    let read := expression (track tokens) 9
    let here : Cursor := { position := 2, depth := 1 }
    let operand := Formula.negation (.atom "B")
    let right := Formula.binary .conjunction operand (.atom "C")
    (∃ outcome last, parse (track tokens) 9 {} = some (outcome, last) ∧
      ⟨.chain, ⟨2, 1⟩, ⟨6, 1⟩, true⟩ ∈ last.calls ∧ ∃ rest, Stands tokens 2 rest) ∧
    Stands tokens here.position (tokens.drop 2) ∧ (tokens.drop 2).length < 9 ∧
    (∃ finish calls,
      chain (track tokens) read 9 .conjunction here =
        some (.ok right, finish.noting ⟨.chain, here.toPlace, finish.toPlace, true⟩) ∧
      descend (track tokens) read .conjunction 9 here =
        some (.ok right, { finish with calls := calls }) ∧
      ∃ next, current (track tokens) finish = some (.ok next, finish) ∧
        next.kind ≠ .connective .conjunction) ∧
    ∃ middle ended, read [] here = some (.ok (operand, []), middle) ∧
      Absorbs (track tokens) read .conjunction [] operand middle [⟨middle, [operand]⟩] ended ∧
      middle.depth < nestingLimit ∧
      read [operand] middle = operation (track tokens) read 9 .conjunction operand middle := by
  intro tokens read here operand right
  have stands : Stands tokens here.position (tokens.drop 2) := ⟨tokens.take 2, rfl, rfl⟩
  obtain ⟨outcome, finish, calls, chained, same, descended, stops, loop⟩ :=
    (chain_descends tokens .conjunction).2 (tokens.drop 2) here 9 stands (by decide)
  have accepted : outcome = .ok right := same.trans (by decide +kernel)
  subst accepted
  refine ⟨⟨_, _, rfl, by decide, (chain_descends tokens .conjunction).1 9 _ _ rfl
      ⟨.chain, ⟨2, 1⟩, ⟨6, 1⟩, true⟩ (by decide)⟩, stands, by decide,
    ⟨finish, calls, chained, descended, stops right rfl⟩, ?_⟩
  have turn : ∃ middle ended, read [] here = some (.ok (operand, []), middle) ∧
      Absorbs (track tokens) read .conjunction [] operand middle [⟨middle, [operand]⟩] ended :=
    ⟨_, _, rfl, .turns rfl rfl rfl (.stops rfl (by decide))⟩
  obtain ⟨middle, ended, run, absorbs⟩ := turn
  obtain ⟨_, facts⟩ := (loop operand [] middle run).2 _ ended absorbs
  obtain ⟨_, level, reads⟩ := facts _ (List.mem_singleton.mpr rfl)
  exact ⟨middle, ended, run, absorbs, level, reads⟩

end Cursor

end Propositional
