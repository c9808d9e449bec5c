import Mathlib.Data.List.TakeWhile
import Propositional.Proofs.Reading.Attention
import Propositional.Proofs.Reading.Cursor
import Propositional.Proofs.Totality

/-!
# The reader passes every token once

`parse_passes_once`: a cursor that reads a sequence without gaps never leaves it, never goes back
and comes to the end that reading has without a cursor. By `expression_follows` every expression
that is given back has passed a token of its own, so no loop goes round more often than there are
tokens before the end.
-/

set_option autoImplicit false

namespace Propositional

/-! ## Progress -/

def Call.reads (call : Call) : Bool :=
  call.routine = .expression && call.returned

/-- A call goes forward to a place up to `bound`, past one token at least if it gives back an
expression, and leaves the depth as it found it. -/
structure Call.Sound (bound : Nat) (call : Call) : Prop where
  forward : call.start.position ≤ call.finish.position
  within : call.finish.position ≤ bound
  level : call.finish.depth = call.start.depth
  passes : call.reads = true → call.start.position < call.finish.position

namespace Cursor

/-- Between two cursors at the same depth, so many tokens are passed one by one and these calls come
to an end. There are `spare` more of the tokens than of the expressions given back, or still
more. -/
structure Moves (bound spare : Nat) (start finish : Cursor) (steps : Nat) (made : List Call) :
    Prop where
  position : finish.position = start.position + steps
  within : finish.position ≤ bound
  depth : finish.depth = start.depth
  taken : finish.taken = start.taken ++ List.range' start.position steps
  calls : finish.calls = start.calls ++ made
  sound : ∀ call ∈ made, call.Sound bound
  spared : made.countP Call.reads + spare ≤ steps

def Progress (bound spare : Nat) (start finish : Cursor) : Prop :=
  ∃ steps made, Moves bound spare start finish steps made

section Progress

variable {bound spare more : Nat} {start middle finish : Cursor}

theorem Progress.refl (within : start.position ≤ bound) : Progress bound 0 start start :=
  ⟨0, [], rfl, within, rfl, (List.append_nil _).symm, (List.append_nil _).symm,
    List.forall_mem_nil _, Nat.le_refl _⟩

theorem Progress.weaken (progress : Progress bound spare start finish) (less : more ≤ spare) :
    Progress bound more start finish := by
  obtain ⟨steps, made, moves⟩ := progress
  have fewer := Nat.le_trans (Nat.add_le_add_left less _) moves.spared
  exact ⟨steps, made, { moves with spared := fewer }⟩

theorem Progress.trans (first : Progress bound spare start middle)
    (second : Progress bound more middle finish) :
    Progress bound (spare + more) start finish := by
  obtain ⟨steps, made, early⟩ := first
  obtain ⟨others, later, late⟩ := second
  refine ⟨steps + others, made ++ later, ?_, late.within, late.depth.trans early.depth, ?_, ?_, ?_,
    ?_⟩
  · rw [late.position, early.position, Nat.add_assoc]
  · rw [late.taken, early.taken, early.position, List.append_assoc, List.range'_append_1]
  · rw [late.calls, early.calls, List.append_assoc]
  · exact List.forall_mem_append.mpr ⟨early.sound, late.sound⟩
  · have sparedEarly := early.spared
    have sparedLate := late.spared
    rw [List.countP_append]
    omega

theorem Progress.passed (within : start.position < bound) :
    Progress bound 1 start start.passed :=
  ⟨1, [], rfl, within, rfl, rfl, (List.append_nil _).symm, List.forall_mem_nil _, Nat.le_refl _⟩

theorem Progress.left (progress : Progress bound spare start.entered finish) :
    Progress bound spare start finish.left := by
  obtain ⟨steps, made, moves⟩ := progress
  refine ⟨steps, made, moves.position, moves.within, ?_, moves.taken, moves.calls, moves.sound,
    moves.spared⟩
  rw [Cursor.left, moves.depth, entered, Nat.add_sub_cancel]

theorem Progress.noting (progress : Progress bound spare start finish) {call : Call}
    (begins : call.start = start.toPlace) (ends : call.finish = finish.toPlace)
    (cost : (if call.reads then 1 else 0) + more ≤ spare) :
    Progress bound more start (finish.noting call) := by
  obtain ⟨steps, made, moves⟩ := progress
  have spared := moves.spared
  have callSound : call.Sound bound := by
    refine ⟨?_, ends ▸ moves.within, ?_, fun reads => ?_⟩
    · rw [begins, ends, moves.position]
      exact Nat.le_add_right _ _
    · rw [begins, ends, moves.depth]
    · rw [if_pos reads] at cost
      rw [begins, ends, moves.position]
      omega
  refine ⟨steps, made ++ [call], moves.position, moves.within, moves.depth, moves.taken, ?_, ?_, ?_⟩
  · rw [Cursor.noting, moves.calls, List.append_assoc]
  · exact List.forall_mem_append.mpr ⟨moves.sound, List.forall_mem_singleton.mpr callSound⟩
  · rw [List.countP_append, List.countP_singleton]
    omega

theorem Progress.depth_eq (progress : Progress bound spare start finish) :
    finish.depth = start.depth := by
  obtain ⟨_, _, moves⟩ := progress
  exact moves.depth

theorem Progress.of_start (progress : Progress bound 0 {} finish) :
    finish.position ≤ bound ∧ finish.depth = 0 ∧ finish.taken = List.range finish.position ∧
      (∀ call ∈ finish.calls, call.Sound bound) ∧ finish.calls.countP Call.reads ≤ bound := by
  obtain ⟨steps, made, moves⟩ := progress
  have fromStart : finish.position = steps := moves.position.trans (Nat.zero_add _)
  have onlyMade : finish.calls = made := moves.calls.trans (List.nil_append _)
  refine ⟨moves.within, moves.depth, ?_, onlyMade ▸ moves.sound, ?_⟩
  · rw [moves.taken, fromStart, List.range_eq_range']
    rfl
  · rw [onlyMade]
    exact Nat.le_trans moves.spared (fromStart ▸ moves.within)

end Progress

/-! ## Where the cursor stands -/

section Standing

variable {tokens rest : List Token} {token : Token} {position : Nat} {here : Cursor}

/-- At this position the rest is left of the tokens before the end. -/
def Stands (tokens : List Token) (position : Nat) (rest : List Token) : Prop :=
  ∃ front, Token.beforeFinish tokens = front ++ rest ∧ front.length = position

theorem Stands.length_eq (stands : Stands tokens position rest) :
    position + rest.length = (Token.beforeFinish tokens).length := by
  obtain ⟨front, split, rfl⟩ := stands
  rw [split, List.length_append]

theorem Stands.within (stands : Stands tokens position rest) :
    position ≤ (Token.beforeFinish tokens).length := by
  have length := stands.length_eq
  omega

theorem Stands.before_end (stands : Stands tokens position (token :: rest)) :
    position < (Token.beforeFinish tokens).length := by
  have length := stands.length_eq
  rw [List.length_cons] at length
  omega

theorem Stands.step (stands : Stands tokens position (token :: rest)) :
    Stands tokens (position + 1) rest := by
  obtain ⟨front, split, rfl⟩ := stands
  exact ⟨front ++ [token], by rw [split, List.append_assoc, List.singleton_append],
    List.length_append⟩

theorem Stands.kind_ne (stands : Stands tokens position (token :: rest)) :
    token.kind ≠ .finish := by
  obtain ⟨front, split, _⟩ := stands
  have member : token ∈ Token.beforeFinish tokens := by simp [split]
  simpa using List.mem_takeWhile_imp member

theorem closed_prefix_of_mem (member : token ∈ tokens) (isFinish : token.kind = .finish) :
    Token.closed tokens <+: tokens := by
  induction tokens with
  | nil => cases member
  | cons first later ih =>
      rw [Token.closed, Token.beforeFinish_cons, Token.firstFinish_cons]
      split
      · exact ⟨later, rfl⟩
      · rename_i goesOn
        rcases List.mem_cons.mp member with rfl | inLater
        · exact absurd isFinish goesOn
        · exact List.prefix_cons_inj first |>.mpr (ih inLater)

theorem closed_prefix_append (tokens : List Token) :
    Token.closed tokens <+: tokens ++ [Token.finish] := by
  induction tokens with
  | nil => exact List.prefix_rfl
  | cons first later ih =>
      rw [Token.closed, Token.beforeFinish_cons, Token.firstFinish_cons]
      split
      · exact ⟨later ++ [Token.finish], rfl⟩
      · exact List.prefix_cons_inj first |>.mpr ih

theorem closed_prefix_track (tokens : List Token) : Token.closed tokens <+: track tokens := by
  rw [track]
  split
  · rename_i ends
    obtain ⟨last, isLast, isFinish⟩ := Option.map_eq_some_iff.mp ends
    exact closed_prefix_of_mem (List.mem_of_getLast? isLast) isFinish
  · exact closed_prefix_append tokens

theorem findIdx?_track (tokens : List Token) :
    (track tokens).findIdx? (·.kind = .finish) = some (Token.beforeFinish tokens).length := by
  obtain ⟨behind, split⟩ := closed_prefix_track tokens
  rw [← split, Token.closed, List.append_assoc, List.findIdx?_append]
  have goesOn : (Token.beforeFinish tokens).findIdx? (·.kind = .finish) = none := by
    rw [List.findIdx?_eq_none_iff]
    intro token member
    simpa using List.mem_takeWhile_imp member
  simp [goesOn, List.findIdx?_cons, Token.kind_firstFinish]

theorem current_of_getElem? (found : (Token.closed tokens)[here.position]? = some token) :
    current (track tokens) here = some (.ok token, here) := by
  obtain ⟨behind, split⟩ := closed_prefix_track tokens
  have inside := (List.getElem?_eq_some_iff.mp found).1
  rw [current, ← split, List.getElem?_append_left inside, found]

theorem current_of_stands (stands : Stands tokens here.position (token :: rest)) :
    current (track tokens) here = some (.ok token, here) := by
  obtain ⟨front, split, length⟩ := stands
  refine current_of_getElem? ?_
  rw [Token.closed, split, ← length]
  simp

theorem current_of_end (stands : Stands tokens here.position []) :
    current (track tokens) here = some (.ok (Token.firstFinish tokens), here) := by
  obtain ⟨front, split, length⟩ := stands
  refine current_of_getElem? ?_
  rw [Token.closed, split, ← length]
  simp

theorem advance_of_stands (stands : Stands tokens here.position (token :: rest)) :
    advance (track tokens) here = some (.ok token, here.passed) := by
  rw [advance, bind_of_ok (current_of_stands stands), if_neg stands.kind_ne]
  rfl

end Standing

/-! ## A cursor follows the reader -/

/-- From this cursor a passage comes to the end that a reading has: it goes forward to a value that
corresponds to what is read, with tokens to spare, or it is refused for the same cause. -/
inductive Follows {α β : Type} (tokens : List Token) (start : Cursor) (spare : Nat)
    (Gives : α → Nat → β → Prop) :
    Option (Except Fault α × Cursor) → Except ParseError β → Prop where
  | ok {value : α} {finish : Cursor} {read : β}
      (progress : Progress (Token.beforeFinish tokens).length spare start finish)
      (gives : Gives value finish.position read) :
      Follows tokens start spare Gives (some (.ok value, finish)) (.ok read)
  | error {cause : ParseError} {finish : Cursor}
      (progress : Progress (Token.beforeFinish tokens).length 0 start finish) :
      Follows tokens start spare Gives (some (.error (.refused cause), finish)) (.error cause)

section Follows

variable {α β γ δ : Type} {tokens : List Token} {start middle : Cursor} {spare more : Nat}
  {Gives : α → Nat → β → Prop} {After : γ → Nat → δ → Prop} {p : Passage α}
  {model : Except ParseError β}

theorem Follows.behind {ended : Option (Except Fault α × Cursor)}
    (progress : Progress (Token.beforeFinish tokens).length spare start middle)
    (later : Follows tokens middle 0 Gives ended model) :
    Follows tokens start spare Gives ended model := by
  cases later with
  | ok onward gives => exact .ok (progress.trans onward) gives
  | error onward => exact .error ((progress.trans onward).weaken (Nat.zero_le _))

theorem Follows.bind {f : α → Passage γ} {g : β → Except ParseError δ}
    (head : Follows tokens start spare Gives (p start) model)
    (tail : ∀ value middle read, Gives value middle.position read → middle.depth = start.depth →
      Follows tokens middle 0 After (f value middle) (g read)) :
    Follows tokens start spare After ((p >>= f) start) (model >>= g) := by
  generalize ended : p start = outcome at head
  cases head with
  | ok progress gives =>
      rw [bind_of_ok ended]
      exact (tail _ _ _ gives progress.depth_eq).behind progress
  | error progress =>
      rw [bind_of_error ended]
      exact .error progress

theorem Follows.map {After : α → Nat → δ → Prop} {ended : Option (Except Fault α × Cursor)}
    {g : β → δ} (follows : Follows tokens start spare Gives ended model)
    (gives : ∀ value position read, Gives value position read → After value position (g read)) :
    Follows tokens start spare After ended (model >>= fun read => .ok (g read)) := by
  cases follows with
  | ok progress given => exact .ok progress (gives _ _ _ given)
  | error progress => exact .error progress

theorem Follows.calling {routine : Routine}
    (body : Follows tokens start spare Gives (p start) model)
    (cost : (if routine = .expression then 1 else 0) + more ≤ spare) :
    Follows tokens start more Gives (calling routine p start) model := by
  generalize ended : p start = outcome at body
  cases body with
  | ok progress gives =>
      rw [calling_of_some ended]
      refine .ok (progress.noting rfl rfl ?_) gives
      simpa [Call.reads, Except.isOk, Except.toBool] using cost
  | error progress =>
      rw [calling_of_some ended]
      refine .error (progress.noting rfl rfl ?_)
      simp [Call.reads, Except.isOk, Except.toBool]

theorem Follows.exists_ended {ended : Option (Except Fault α × Cursor)}
    (follows : Follows tokens start spare Gives ended model) :
    ∃ outcome finish, ended = some (outcome, finish) := by
  cases follows with
  | ok progress gives => exact ⟨_, _, rfl⟩
  | error progress => exact ⟨_, _, rfl⟩

theorem Follows.progress {outcome : Except Fault α} {finish : Cursor}
    (follows : Follows tokens start spare Gives (some (outcome, finish)) model) :
    Progress (Token.beforeFinish tokens).length 0 start finish := by
  cases follows with
  | ok progress gives => exact progress.weaken (Nat.zero_le _)
  | error progress => exact progress

theorem Follows.of_ok {value : α} {finish : Cursor}
    (follows : Follows tokens start spare Gives (some (.ok value, finish)) model) :
    ∃ read, model = .ok read ∧ Gives value finish.position read := by
  cases follows with
  | ok progress gives => exact ⟨_, rfl, gives⟩

theorem Follows.of_error {fault : Fault} {finish : Cursor}
    (follows : Follows tokens start spare Gives (some (.error fault, finish)) model) :
    ∃ cause, fault = .refused cause ∧ model = .error cause := by
  cases follows with
  | error progress => exact ⟨_, rfl, rfl⟩

theorem Follows.deeper (body : Follows tokens start.entered spare Gives (p start.entered) model) :
    Follows tokens start spare Gives (deeper p start) model := by
  generalize ended : p start.entered = outcome at body
  cases body with
  | ok progress gives =>
      rw [deeper_of_some ended]
      exact .ok progress.left gives
  | error progress =>
      rw [deeper_of_some ended]
      exact .error progress.left

end Follows

/-! ## Loops and calls -/

section Readers

variable {tokens rest : List Token} {token : Token} {here : Cursor} {depth rounds : Nat}
  {read : Reader} {model : Formula.Reader} {bound : Nat}

def GivesExpression (tokens : List Token) (value : Formula × List Formula) (position : Nat)
    (step : Formula.Expression bound) : Prop :=
  value = (step.formula, step.stack) ∧ Stands tokens position step.rest

def GivesOperand (tokens : List Token) (value : Formula) (position : Nat)
    (operand : Formula.Operand bound) : Prop :=
  value = operand.formula ∧ Stands tokens position operand.rest

def GivesCollection (tokens : List Token) (closes : Kind → Bool) (stack : List Formula)
    (position : Nat) (all : Formula.Collection bound) : Prop :=
  stack = all.stack ∧ Stands tokens position all.rest ∧ Formula.Halts closes all.rest

/-- At this depth, and where fewer tokens are left than there are rounds, the one reader goes where
the other one does. -/
def ReadsAlong (tokens : List Token) (depth rounds : Nat) (read : Reader)
    (model : Formula.Reader) : Prop :=
  ∀ (stack : List Formula) (rest : List Token) (here : Cursor),
    Stands tokens here.position rest → here.depth = depth → rest.length < rounds →
      Follows tokens here 0 (GivesExpression tokens) (read stack here) (model stack rest)

theorem finish?_ofSequence :
    (TokenInput.ofSequence tokens).finish? = some (Token.firstFinish tokens) :=
  rfl

section Loops

variable (along : ReadsAlong tokens depth rounds read model)
include along

/-- A loop that gets a round for every token that is left, and one more, does not run out of them:
every expression that it reads passes a token. -/
theorem collect_follows {closes inner : Kind → Bool} (ends : closes .finish = true)
    (same : ∀ kind, kind ≠ .finish → closes kind = inner kind) (limit : Nat)
    (stack : List Formula) (stands : Stands tokens here.position rest)
    (level : here.depth = depth) (enough : rest.length < rounds) (turns : rest.length < limit) :
    Follows tokens here 0 (GivesCollection tokens inner)
      (collect (track tokens) read closes limit stack here)
      (Formula.collect model (TokenInput.ofSequence tokens) inner stack rest) := by
  induction limit generalizing stack rest here with
  | zero => exact absurd turns (Nat.not_lt_zero _)
  | succ limit ih =>
      rw [collect]
      cases rest with
      | nil =>
          rw [bind_of_ok (current_of_end stands), Token.kind_firstFinish, if_pos ends,
            Formula.collect_stop finish?_ofSequence inner stack [] trivial]
          exact .ok (.refl stands.within) ⟨rfl, stands, trivial⟩
      | cons token later =>
          rw [bind_of_ok (current_of_stands stands), same _ stands.kind_ne]
          by_cases closing : inner token.kind = true
          · rw [if_pos closing,
              Formula.collect_stop finish?_ofSequence inner stack (token :: later) closing]
            exact .ok (.refl stands.within) ⟨rfl, stands, closing⟩
          · rw [if_neg closing, Formula.collect_step inner stack (token :: later) closing]
            refine (along stack _ here stands level enough).bind ?_
            rintro value middle step ⟨rfl, after⟩ kept
            have fewer := Nat.lt_of_lt_of_le step.shorter (Nat.lt_succ_iff.mp turns)
            exact (ih (step.formula :: step.stack) after (kept.trans level)
              (Nat.lt_trans step.shorter enough) fewer).map fun _ _ _ given => given

theorem absorb_follows (c : Connective) (limit : Nat) (stack : List Formula) (operand : Formula)
    (stands : Stands tokens here.position rest) (level : here.depth = depth)
    (enough : rest.length < rounds) (turns : rest.length < limit) :
    Follows tokens here 0 (GivesOperand tokens)
      (absorb (track tokens) read c limit stack operand here)
      (Formula.absorb model (TokenInput.ofSequence tokens) c stack operand rest) := by
  induction limit generalizing stack operand rest here with
  | zero => exact absurd turns (Nat.not_lt_zero _)
  | succ limit ih =>
      rw [absorb]
      cases rest with
      | nil =>
          rw [bind_of_ok (current_of_end stands), Token.kind_firstFinish, if_neg (by simp),
            Formula.absorb_stop finish?_ofSequence _ _ _ id]
          exact .ok (.refl stands.within) ⟨rfl, stands⟩
      | cons token later =>
          rw [bind_of_ok (current_of_stands stands), Formula.absorb]
          by_cases same : token.kind = .connective c
          · rw [if_pos same, if_pos same]
            refine (along _ _ here stands level enough).bind ?_
            rintro value middle step ⟨rfl, after⟩ kept
            have fewer := Nat.lt_of_lt_of_le step.shorter (Nat.lt_succ_iff.mp turns)
            exact (ih step.stack step.formula after (kept.trans level)
              (Nat.lt_trans step.shorter enough) fewer).map fun _ _ _ given => given
          · rw [if_neg same, if_neg same]
            exact .ok (.refl stands.within) ⟨rfl, stands⟩

theorem chain_follows (c : Connective) (stands : Stands tokens here.position rest)
    (level : here.depth = depth) (enough : rest.length < rounds) :
    Follows tokens here 0 (GivesOperand tokens) (chain (track tokens) read rounds c here)
      (Formula.chain model (TokenInput.ofSequence tokens) c rest) := by
  rw [chain, Formula.chain]
  refine Follows.calling (Follows.bind (along [] rest here stands level enough) ?_) (by decide)
  rintro value middle first ⟨rfl, after⟩ kept
  have fewer := Nat.lt_trans first.shorter enough
  exact (absorb_follows along c rounds first.stack first.formula after (kept.trans level)
    fewer fewer).map fun _ _ _ given => given

theorem group_follows (stands : Stands tokens here.position (token :: rest))
    (level : here.depth = depth) (enough : rest.length < rounds) :
    Follows tokens here 1 (GivesOperand tokens) (group (track tokens) read rounds here)
      (Formula.group model (TokenInput.ofSequence tokens) token rest) := by
  rw [group, Formula.group]
  refine Follows.calling ?_ (by decide : (if Routine.group = .expression then 1 else 0) + 1 ≤ 1)
  rw [bind_of_ok (advance_of_stands stands)]
  have same (kind : Kind) (goesOn : kind ≠ .finish) :
      (decide (kind = .closing) || decide (kind = .finish)) = decide (kind = .closing) := by
    simp [goesOn]
  refine Follows.behind (.passed stands.before_end)
    (Follows.bind (collect_follows along rfl same rounds [] stands.step level enough enough) ?_)
  rintro stack middle all ⟨rfl, after, _⟩ _
  obtain ⟨stack, later, noLonger⟩ := all
  cases later with
  | nil =>
      rw [bind_of_ok (current_of_end after), if_pos (Token.kind_firstFinish _)]
      exact .error (.refl after.within)
  | cons closing later =>
      rw [bind_of_ok (current_of_stands after), if_neg after.kind_ne,
        bind_of_ok (advance_of_stands after)]
      have onward : Progress (Token.beforeFinish tokens).length 0 middle middle.passed :=
        (Progress.passed after.before_end).weaken (Nat.zero_le _)
      rcases stack with _ | ⟨first, _ | ⟨second, below⟩⟩
      · exact .error onward
      · exact .ok onward ⟨rfl, after.step⟩
      · exact .error onward

end Loops

theorem beginning_follows {allowance : Nat}
    (along : ReadsAlong tokens depth rounds read
      (Formula.expression (TokenInput.ofSequence tokens) allowance))
    (stack : List Formula) (stands : Stands tokens here.position (token :: rest))
    (level : here.depth = depth) (enough : rest.length < rounds) :
    Follows tokens here 1 (GivesExpression tokens)
      (beginning (track tokens) read rounds token stack here)
      (Formula.expression (TokenInput.ofSequence tokens) (allowance + 1) stack
        (token :: rest)) := by
  have passing : Progress (Token.beforeFinish tokens).length 1 here here.passed :=
    .passed stands.before_end
  have stands' : Stands tokens here.passed.position rest := stands.step
  have level' : here.passed.depth = depth := level
  rw [beginning, Formula.expression]
  cases kind : token.kind with
  | negation =>
      dsimp only
      rw [bind_of_ok (advance_of_stands stands)]
      refine Follows.behind passing (Follows.bind (along [] _ _ stands' level' enough) ?_)
      rintro value middle operand ⟨rfl, after⟩ _
      exact .ok (.refl after.within) ⟨rfl, after⟩
  | atom =>
      dsimp only
      rw [bind_of_ok (advance_of_stands stands)]
      exact .ok passing ⟨rfl, stands'⟩
  | connective c =>
      dsimp only
      rw [bind_of_ok (advance_of_stands stands)]
      cases stack with
      | nil => exact .error (passing.weaken (Nat.zero_le _))
      | cons left below =>
          refine Follows.behind passing
            (Follows.bind (chain_follows along c stands' level' enough) ?_)
          rintro value middle right ⟨rfl, after⟩ _
          exact .ok (.refl after.within) ⟨rfl, after⟩
  | opening =>
      refine Follows.bind (group_follows along stands level enough) ?_
      rintro value middle inner ⟨rfl, after⟩ _
      exact .ok (.refl after.within) ⟨rfl, after⟩
  | closing => exact .error (.refl stands.within)
  | finish => exact .error (.refl stands.within)

theorem current_eq (stands : Stands tokens here.position rest) :
    ∃ token, (TokenInput.ofSequence tokens).current? rest = some token ∧
      current (track tokens) here = some (.ok token, here) := by
  cases rest with
  | nil => exact ⟨_, rfl, current_of_end stands⟩
  | cons token later => exact ⟨token, rfl, current_of_stands stands⟩

/-- The expressions inside another one stand one level deeper, have one more token behind them and
one round less. -/
theorem expression_follows {allowance : Nat} (limits : nestingLimit - depth = allowance) :
    ReadsAlong tokens depth rounds (expression (track tokens) rounds)
      (Formula.expression (TokenInput.ofSequence tokens) allowance) := by
  induction rounds generalizing depth allowance with
  | zero => exact fun _ _ _ _ _ enough => absurd enough (Nat.not_lt_zero _)
  | succ rounds ih =>
      intro stack rest here stands level enough
      rw [expression]
      refine Follows.calling (Follows.deeper ?_)
        (by decide : (if Routine.expression = .expression then 1 else 0) + 0 ≤ 1)
      have inside : Stands tokens here.entered.position rest := stands
      have deeper : here.entered.depth = depth + 1 := congrArg (· + 1) level
      generalize here.entered = start at inside deeper ⊢
      obtain ⟨token, isNext, seen⟩ := current_eq inside
      have looked : (get : Passage Cursor) start = some (.ok start, start) := rfl
      rw [bind_of_ok seen, bind_of_ok looked, deeper]
      cases allowance with
      | zero =>
          rw [if_pos (by omega), Formula.expression, isNext]
          exact .error (.refl inside.within)
      | succ allowance =>
          have along := ih (show nestingLimit - (depth + 1) = allowance by omega)
          rw [if_neg (by omega)]
          cases rest with
          | nil =>
              cases isNext
              rw [beginning, Token.kind_firstFinish]
              exact .error (.refl inside.within)
          | cons token later =>
              cases isNext
              exact beginning_follows along stack inside deeper (Nat.lt_of_succ_lt_succ enough)

/-! ## Whole sequences -/

theorem parse_follows (enough : (Token.beforeFinish tokens).length < rounds) :
    Follows tokens {} 0
      (fun value position formula =>
        value = formula ∧ position = (Token.beforeFinish tokens).length)
      (parse (track tokens) rounds {}) (Formula.ofInput (TokenInput.ofSequence tokens)) := by
  have stands : Stands tokens ({} : Cursor).position (Token.beforeFinish tokens) := ⟨[], rfl, rfl⟩
  have along : ReadsAlong tokens 0 rounds (expression (track tokens) rounds)
      (Formula.expression (TokenInput.ofSequence tokens) nestingLimit) :=
    expression_follows (Nat.sub_zero _)
  have ends (kind : Kind) (goesOn : kind ≠ .finish) : decide (kind = .finish) = false :=
    decide_eq_false goesOn
  rw [parse, Formula.ofInput]
  refine Follows.bind (collect_follows along rfl ends rounds [] stands rfl enough enough) ?_
  rintro stack middle all ⟨rfl, after, halts⟩ _
  obtain ⟨stack, rest, noLonger⟩ := all
  cases rest with
  | cons token later => cases halts
  | nil =>
      have atEnd : middle.position = (Token.beforeFinish tokens).length := after.length_eq
      rcases stack with _ | ⟨first, _ | ⟨second, below⟩⟩
      · dsimp only
        rw [bind_of_ok (current_of_end after)]
        exact .error (.refl after.within)
      · exact .ok (.refl after.within) ⟨rfl, atEnd⟩
      · cases printed : (first :: second :: below).reverse.mapM Formula.text with
        | ok texts =>
            simp only [Formula.single, printed]
            exact .error (.refl after.within)
        | error cause =>
            simp only [Formula.single, printed]
            exact .error (.refl after.within)

theorem parse_ends (tokens : List Token) :
    ∃ ended, ∀ spare,
      parse (track tokens) ((Token.beforeFinish tokens).length + 1 + spare) {} = some ended := by
  have follows := parse_follows (Nat.lt_succ_self (Token.beforeFinish tokens).length)
  cases ended : parse (track tokens) ((Token.beforeFinish tokens).length + 1) {} with
  | none =>
      rw [ended] at follows
      cases follows
  | some result => exact ⟨result, fun spare => parse_extends_add _ spare _ _ ended⟩

theorem parse_outcome {outcome : Except Fault Formula} {last : Cursor}
    (ended : parse (track tokens) ((Token.beforeFinish tokens).length + 1) {} =
      some (outcome, last)) :
    outcome = (Formula.ofInput (TokenInput.ofSequence tokens)).mapError .refused ∧
      Progress (Token.beforeFinish tokens).length 0 {} last ∧
      ∀ formula, outcome = .ok formula → last.position = (Token.beforeFinish tokens).length := by
  have follows := parse_follows (Nat.lt_succ_self (Token.beforeFinish tokens).length)
  rw [ended] at follows
  cases outcome with
  | ok formula =>
      obtain ⟨read, readRun, same, atEnd⟩ := follows.of_ok
      rw [readRun, same]
      exact ⟨rfl, follows.progress, fun _ _ => atEnd⟩
  | error fault =>
      obtain ⟨cause, same, readRun⟩ := follows.of_error
      rw [readRun, same]
      refine ⟨rfl, follows.progress, fun formula made => ?_⟩
      cases made

theorem ofInput_of_refused {cause : ParseError}
    (refused : Formula.ofTokens (tokens.map some) = .error cause) :
    Formula.ofInput (TokenInput.ofSequence tokens) = .error cause ∨
      cause = .tooTall ∧
        ∃ formula, Formula.ofInput (TokenInput.ofSequence tokens) = .ok formula := by
  rw [Formula.ofTokens_map_some] at refused
  rcases bind_eq_error refused with unread | ⟨formula, read, unprinted⟩
  · exact .inl unread
  · refine .inr ⟨?_, formula, read⟩
    cases printed : formula.text with
    | ok text => simp [printed] at unprinted
    | error flaw => simpa [printed, eq_comm] using unprinted

/-- The reading of a sequence without gaps. It ends, however many rounds it gets beyond one for
every token before the end, and its outcome is that of the reader. The cursor never passes the first
end token. It passes the tokens before that one by one, all of them if a formula is read. Every call
goes forward and leaves the depth as it was, and at most as many expressions are given back as there
are tokens. A failure is a refusal by the reader, or the formula that was read is too high. -/
theorem parse_passes_once (tokens : List Token) :
    let size := (Token.beforeFinish tokens).length
    (track tokens).findIdx? (·.kind = .finish) = some size ∧
    ∃ (outcome : Except Fault Formula) (last : Cursor),
      (∀ spare, parse (track tokens) (size + 1 + spare) {} = some (outcome, last)) ∧
      outcome = (Formula.ofInput (TokenInput.ofSequence tokens)).mapError .refused ∧
      last.position ≤ size ∧ last.depth = 0 ∧ last.taken = List.range last.position ∧
      (∀ call ∈ last.calls, call.Sound size) ∧ last.calls.countP Call.reads ≤ size ∧
      (∀ formula, outcome = .ok formula → last.taken = List.range size) ∧
      ∀ cause, Formula.ofTokens (tokens.map some) = .error cause → cause ≠ .gap ∧
        (outcome = .error (.refused cause) ∨
          cause = .tooTall ∧ ∃ formula, outcome = .ok formula) := by
  intro size
  obtain ⟨⟨outcome, last⟩, ends⟩ := parse_ends tokens
  obtain ⟨sameOutcome, progress, whole⟩ := parse_outcome (ends 0)
  obtain ⟨within, depth, taken, sound, count⟩ := progress.of_start
  refine ⟨findIdx?_track tokens, outcome, last, ends, sameOutcome, within, depth, taken, sound,
    count, ?_, ?_⟩
  · intro formula read
    rw [taken, whole formula read]
  · intro cause refused
    refine ⟨ne_gap_of_ofTokens refused, ?_⟩
    rcases ofInput_of_refused refused with unread | ⟨tall, formula, read⟩
    · exact .inl (by rw [sameOutcome, unread]; rfl)
    · exact .inr ⟨tall, formula, by rw [sameOutcome, read]; rfl⟩

example : parse (track [⟨.opening, "(", 0⟩, ⟨.atom, "A", 1⟩]) 3 {} =
    some (.error (.refused (.unterminated ⟨.opening, "(", 0⟩)),
      { position := 2, taken := [0, 1], calls :=
          [⟨.expression, ⟨1, 1⟩, ⟨2, 1⟩, true⟩, ⟨.group, ⟨0, 1⟩, ⟨2, 1⟩, false⟩,
            ⟨.expression, ⟨0, 0⟩, ⟨2, 0⟩, false⟩] }) := by
  rfl

end Readers

end Cursor

end Propositional
