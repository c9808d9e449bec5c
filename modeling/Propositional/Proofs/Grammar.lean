import Mathlib.Data.List.Chain
import Propositional.Formula
import Propositional.Token

/-!
# The infix grammar

A phrase is a primary with steps behind it, and a step is a connective with a primary behind it. A
primary is an atom, the negation of a primary, or a phrase in parentheses.

The steps of a phrase fall into runs, the longest stretches with one connective. They decide both
the formula that a phrase stands for and the nesting that it needs.
-/

set_option autoImplicit false

namespace Propositional

/-! ## Words -/

/-- What the grammar sees of a token: its kind, and of an atom also the name. -/
inductive Word where
  | atom (name : String)
  | negation
  | connective (c : Connective)
  | opening
  | closing
  | finish
  deriving DecidableEq

namespace Token

def word (t : Token) : Word :=
  match t.kind with
  | .atom => .atom t.raw
  | .negation => .negation
  | .connective c => .connective c
  | .opening => .opening
  | .closing => .closing
  | .finish => .finish

theorem word_eq_atom {t : Token} {name : String} :
    t.word = .atom name ↔ t.kind = .atom ∧ t.raw = name := by
  cases kind : t.kind <;> simp [word, kind]

theorem word_eq_negation {t : Token} : t.word = .negation ↔ t.kind = .negation := by
  cases kind : t.kind <;> simp [word, kind]

theorem word_eq_connective {t : Token} {c : Connective} :
    t.word = .connective c ↔ t.kind = .connective c := by
  cases kind : t.kind <;> simp [word, kind]

theorem word_eq_opening {t : Token} : t.word = .opening ↔ t.kind = .opening := by
  cases kind : t.kind <;> simp [word, kind]

theorem word_eq_closing {t : Token} : t.word = .closing ↔ t.kind = .closing := by
  cases kind : t.kind <;> simp [word, kind]

def beforeFinish (tokens : List Token) : List Token :=
  tokens.takeWhile fun t => t.kind ≠ .finish

theorem beforeFinish_cons (t : Token) (rest : List Token) :
    beforeFinish (t :: rest) = if t.kind = .finish then [] else t :: beforeFinish rest := by
  by_cases isFinish : t.kind = .finish
  · simp [beforeFinish, isFinish]
  · simp [beforeFinish, isFinish]

/-- The first end token of a sequence, or the one that is put behind a sequence without any. -/
def firstFinish (tokens : List Token) : Token :=
  (tokens.find? fun t => t.kind = .finish).getD Token.finish

theorem firstFinish_cons (t : Token) (rest : List Token) :
    firstFinish (t :: rest) = if t.kind = .finish then t else firstFinish rest := by
  by_cases isFinish : t.kind = .finish
  · simp [firstFinish, isFinish]
  · simp [firstFinish, isFinish]

end Token

/-! ## Runs -/

/-- The right-nested formula of one connective: every formula but the last is the left side of the
connective, and the right side is made of those behind it. -/
def Formula.nest (c : Connective) (first : Formula) : List Formula → Formula
  | [] => first
  | next :: rest => .binary c first (nest c next rest)

structure Run (α : Type) where
  connective : Connective
  first : α
  others : List α
  deriving DecidableEq

namespace Run

variable {α β : Type}

def items (r : Run α) : List α :=
  r.first :: r.others

def steps (r : Run α) : List (Connective × α) :=
  r.items.map fun item => (r.connective, item)

def map (f : α → β) (r : Run α) : Run β :=
  ⟨r.connective, f r.first, r.others.map f⟩

def push (c : Connective) (item : α) : List (Run α) → List (Run α)
  | [] => [⟨c, item, []⟩]
  | r :: rest =>
      if c = r.connective then ⟨c, item, r.items⟩ :: rest else ⟨c, item, []⟩ :: r :: rest

/-- The runs that steps fall into, each as long as it can be. -/
def ofSteps : List (Connective × α) → List (Run α)
  | [] => []
  | (c, item) :: rest => push c item (ofSteps rest)

def Separate (runs : List (Run α)) : Prop :=
  runs.IsChain fun r s => r.connective ≠ s.connective

theorem flatMap_steps_push (c : Connective) (item : α) (runs : List (Run α)) :
    (push c item runs).flatMap steps = (c, item) :: runs.flatMap steps := by
  cases runs with
  | nil => rfl
  | cons r rest =>
      by_cases same : c = r.connective
      · simp [push, same, steps, items]
      · simp [push, same, steps, items]

theorem flatMap_steps_ofSteps (sequence : List (Connective × α)) :
    (ofSteps sequence).flatMap steps = sequence := by
  induction sequence with
  | nil => rfl
  | cons step rest ih => rw [ofSteps, flatMap_steps_push, ih]

theorem separate_push (c : Connective) (item : α) (runs : List (Run α))
    (separate : Separate runs) : Separate (push c item runs) := by
  cases runs with
  | nil => exact List.isChain_singleton _
  | cons r rest =>
      unfold Separate at separate ⊢
      by_cases same : c = r.connective
      · subst same
        simp only [push, if_pos]
        rw [List.isChain_cons] at separate ⊢
        exact separate
      · simp only [push, if_neg same]
        exact List.isChain_cons_cons.mpr ⟨same, separate⟩

theorem separate_ofSteps (sequence : List (Connective × α)) : Separate (ofSteps sequence) := by
  induction sequence with
  | nil => exact List.isChain_nil
  | cons step rest ih => exact separate_push step.1 step.2 _ ih

theorem map_push (f : α → β) (c : Connective) (item : α) (runs : List (Run α)) :
    (push c item runs).map (map f) = push c (f item) (runs.map (map f)) := by
  cases runs with
  | nil => rfl
  | cons r rest =>
      by_cases same : c = r.connective
      · simp [push, same, map, items]
      · simp [push, same, map]

theorem ofSteps_map (f : α → β) (sequence : List (Connective × α)) :
    ofSteps (sequence.map fun step => (step.1, f step.2)) = (ofSteps sequence).map (map f) := by
  induction sequence with
  | nil => rfl
  | cons step rest ih => simp only [List.map_cons, ofSteps, map_push, ih]

def nest (r : Run Formula) : Formula :=
  Formula.nest r.connective r.first r.others

/-- The nesting that items of a run need which `before` others precede. Every operator of the run
keeps an expression open until the run ends. -/
def needFrom (before : Nat) : List Nat → Nat
  | [] => 0
  | item :: rest => max (before + 1 + item) (needFrom (before + 1) rest)

def need (r : Run Nat) : Nat :=
  needFrom 0 r.items

theorem needFrom_succ (before item : Nat) (rest : List Nat) :
    needFrom (before + 1) (item :: rest) = 1 + needFrom before (item :: rest) := by
  induction rest generalizing before item with
  | nil => simp only [needFrom]; omega
  | cons next rest ih =>
      have tail := ih (before + 1) next
      change max _ (needFrom (before + 1 + 1) (next :: rest)) =
        1 + max _ (needFrom (before + 1) (next :: rest))
      omega

theorem needFrom_cons (item : Nat) (rest : List Nat) :
    needFrom 0 (item :: rest) = 1 + max item (needFrom 0 rest) := by
  cases rest with
  | nil => simp only [needFrom]; omega
  | cons next rest =>
      rw [needFrom, needFrom_succ]
      omega

end Run

/-! ## Phrases -/

structure Phrase (α : Type) where
  first : α
  steps : List (Connective × α)
  deriving DecidableEq

namespace Phrase

variable {α β : Type}

def map (f : α → β) (e : Phrase α) : Phrase β :=
  ⟨f e.first, e.steps.map fun step => (step.1, f step.2)⟩

theorem map_map {γ : Type} (f : α → β) (g : β → γ) (e : Phrase α) :
    (e.map f).map g = e.map fun item => g (f item) := by
  simp [map]

theorem map_congr {f g : α → β} {e : Phrase α} (first : f e.first = g e.first)
    (steps : ∀ step ∈ e.steps, f step.2 = g step.2) : e.map f = e.map g := by
  have stepsEq : (e.steps.map fun step => (step.1, f step.2)) =
      e.steps.map fun step => (step.1, g step.2) :=
    List.map_congr_left fun step member => by rw [steps step member]
  rw [map, map, first, stepsEq]

def runs (e : Phrase α) : List (Run α) :=
  Run.ofSteps e.steps

theorem runs_map (f : α → β) (e : Phrase α) : (e.map f).runs = e.runs.map (Run.map f) :=
  Run.ofSteps_map f e.steps

theorem mem_steps_of_mem_items (e : Phrase α) {r : Run α} (runMember : r ∈ e.runs) {item : α}
    (itemMember : item ∈ r.items) : (r.connective, item) ∈ e.steps := by
  rw [← Run.flatMap_steps_ofSteps e.steps]
  exact List.mem_flatMap.mpr ⟨r, runMember, List.mem_map_of_mem itemMember⟩

/-- The formula of a phrase of formulas. Run by run, all that stands before a run becomes the left
side of its connective. -/
def associate (e : Phrase Formula) : Formula :=
  e.runs.foldl (fun left r => .binary r.connective left r.nest) e.first

def deepest (e : Phrase Nat) : Nat :=
  max e.first ((e.runs.map Run.need).foldr max 0)

def spelling (e : Phrase (List Word)) : List Word :=
  e.first ++ e.steps.flatMap fun step => .connective step.1 :: step.2

end Phrase

/-! ## Primaries -/

inductive Primary where
  | atom (name : String)
  | negation (operand : Primary)
  | group (content : Phrase Primary)

namespace Primary

section Fold

variable {β : Type} (atom : String → β) (negation : β → β) (group : Phrase β → β)

mutual

def fold : Primary → β
  | .atom name => atom name
  | .negation operand => negation operand.fold
  | .group ⟨first, steps⟩ => group ⟨first.fold, foldSteps steps⟩

def foldSteps : List (Connective × Primary) → List (Connective × β)
  | [] => []
  | (c, item) :: rest => (c, item.fold) :: foldSteps rest

end

theorem foldSteps_eq_map (steps : List (Connective × Primary)) :
    foldSteps atom negation group steps =
      steps.map fun step => (step.1, step.2.fold atom negation group) := by
  induction steps with
  | nil => rfl
  | cons step rest ih => rw [foldSteps, ih, List.map_cons]

theorem fold_group (e : Phrase Primary) :
    (Primary.group e).fold atom negation group = group (e.map (fold atom negation group)) := by
  rw [fold, foldSteps_eq_map]
  rfl

end Fold

/-- To show a property of all primaries, a phrase in parentheses may be taken to have it of all
its items. -/
@[elab_as_elim, induction_eliminator]
theorem induct {motive : Primary → Prop}
    (atom : ∀ name, motive (.atom name))
    (negation : ∀ operand, motive operand → motive (.negation operand))
    (group : ∀ e : Phrase Primary, motive e.first → (∀ step ∈ e.steps, motive step.2) →
      motive (.group e)) (p : Primary) : motive p := by
  refine @Primary.rec motive (fun e => motive e.first ∧ ∀ step ∈ e.steps, motive step.2)
    (fun steps => ∀ step ∈ steps, motive step.2) (fun step => motive step.2)
    atom negation (fun e parts => group e parts.1 parts.2) (fun _ _ head tail => ⟨head, tail⟩)
    ?_ ?_ (fun _ _ item => item) p
  · intro step member
    cases member
  · intro head tail atHead inTail step member
    rcases List.mem_cons.mp member with rfl | member
    · exact atHead
    · exact inTail step member

def words : Primary → List Word :=
  fold (fun name => [.atom name]) (.negation :: ·) fun e => .opening :: (e.spelling ++ [.closing])

def tree : Primary → Formula :=
  fold .atom .negation Phrase.associate

/-- The nesting that a primary needs: the number of expressions open at once while it is read. -/
def need : Primary → Nat :=
  fold (fun _ => 1) (1 + ·) fun e => 1 + e.deepest

end Primary

namespace Phrase

def words (e : Phrase Primary) : List Word :=
  (e.map Primary.words).spelling

def tree (e : Phrase Primary) : Formula :=
  (e.map Primary.tree).associate

def need (e : Phrase Primary) : Nat :=
  (e.map Primary.need).deepest

/-- The tokens are a phrase by their words; their texts and positions play no part, but for the
names of atoms. -/
def Derives (e : Phrase Primary) (tokens : List Token) : Prop :=
  tokens.map Token.word = e.words

instance decidableDerives (e : Phrase Primary) (tokens : List Token) :
    Decidable (e.Derives tokens) :=
  inferInstanceAs (Decidable (tokens.map Token.word = e.words))

end Phrase

namespace Primary

@[simp] theorem words_atom (name : String) : (atom name).words = [.atom name] := rfl

@[simp] theorem words_negation (p : Primary) : (negation p).words = .negation :: p.words := rfl

@[simp] theorem words_group (e : Phrase Primary) :
    (group e).words = .opening :: (e.words ++ [.closing]) :=
  fold_group _ _ _ e

@[simp] theorem tree_atom (name : String) : (atom name).tree = .atom name := rfl

@[simp] theorem tree_negation (p : Primary) : (negation p).tree = .negation p.tree := rfl

@[simp] theorem tree_group (e : Phrase Primary) : (group e).tree = e.tree :=
  fold_group _ _ _ e

@[simp] theorem need_atom (name : String) : (atom name).need = 1 := rfl

@[simp] theorem need_negation (p : Primary) : (negation p).need = 1 + p.need := rfl

@[simp] theorem need_group (e : Phrase Primary) : (group e).need = 1 + e.need :=
  fold_group _ _ _ e

theorem need_pos (p : Primary) : 0 < p.need := by
  cases p with
  | atom name => exact Nat.one_pos
  | negation p => rw [need_negation]; omega
  | group e => rw [need_group]; omega

theorem words_head (p : Primary) :
    ∃ word rest, p.words = word :: rest ∧ word ≠ .closing ∧ ∀ c, word ≠ .connective c := by
  cases p with
  | atom name => exact ⟨_, _, rfl, nofun, nofun⟩
  | negation p => exact ⟨_, _, rfl, nofun, nofun⟩
  | group e => exact ⟨_, _, words_group e, nofun, nofun⟩

end Primary

def stepWords (step : Connective × Primary) : List Word :=
  .connective step.1 :: step.2.words

theorem Phrase.words_eq (e : Phrase Primary) :
    e.words = e.first.words ++ e.steps.flatMap stepWords := by
  simp only [Phrase.words, Phrase.spelling, Phrase.map, List.flatMap_map]
  rfl

theorem Phrase.tree_eq (e : Phrase Primary) :
    e.tree = e.runs.foldl (fun left r => .binary r.connective left (r.map Primary.tree).nest)
      e.first.tree := by
  rw [Phrase.tree, Phrase.associate, Phrase.runs_map, List.foldl_map]
  rfl

theorem Phrase.need_eq (e : Phrase Primary) :
    e.need = max e.first.need ((e.runs.map fun r => (r.map Primary.need).need).foldr max 0) := by
  rw [Phrase.need, Phrase.deepest, Phrase.runs_map, List.map_map]
  rfl

/-! ## Properties of all formulas of the grammar -/

section Closed

variable {P : Formula → Prop}

theorem Formula.nest_closed (binary : ∀ c left right, P left → P right → P (.binary c left right))
    (c : Connective) (first : Formula) (others : List Formula) (atFirst : P first)
    (atOthers : ∀ f ∈ others, P f) : P (Formula.nest c first others) := by
  induction others generalizing first with
  | nil => exact atFirst
  | cons next rest ih =>
      have right := ih next (atOthers next (List.mem_cons_self ..))
        (fun f member => atOthers f (List.mem_cons_of_mem _ member))
      exact binary c first _ atFirst right

/-- A property that passes from the sides of a connective to the whole passes from the items of a
phrase to its formula. -/
theorem Phrase.associate_closed
    (binary : ∀ c left right, P left → P right → P (.binary c left right)) (e : Phrase Formula)
    (atFirst : P e.first) (atSteps : ∀ step ∈ e.steps, P step.2) : P e.associate := by
  have atItems : ∀ r ∈ e.runs, ∀ f ∈ r.items, P f := by
    intro r runMember f itemMember
    exact atSteps (r.connective, f) (e.mem_steps_of_mem_items runMember itemMember)
  rw [Phrase.associate]
  generalize e.runs = runs at atItems
  generalize e.first = left at atFirst
  induction runs generalizing left with
  | nil => exact atFirst
  | cons r runs ih =>
      have atRun := atItems r (List.mem_cons_self ..)
      have right := Formula.nest_closed binary r.connective r.first r.others
        (atRun r.first (List.mem_cons_self ..))
        (fun f member => atRun f (List.mem_cons_of_mem _ member))
      exact ih (fun s member => atItems s (List.mem_cons_of_mem _ member)) _
        (binary r.connective left _ atFirst right)

theorem Primary.tree_closed (negation : ∀ f, P f → P (.negation f))
    (binary : ∀ c left right, P left → P right → P (.binary c left right)) (p : Primary)
    (atoms : ∀ name, Word.atom name ∈ p.words → P (.atom name)) : P p.tree := by
  induction p with
  | atom name => exact atoms name (List.mem_singleton_self _)
  | negation p ih =>
      exact negation _ (ih fun name member => atoms name (List.mem_cons_of_mem _ member))
  | group e first steps =>
      have inside : ∀ name, Word.atom name ∈ e.words → P (.atom name) := by
        intro name member
        refine atoms name ?_
        rw [Primary.words_group]
        exact List.mem_cons_of_mem _ (List.mem_append_left _ member)
      rw [Phrase.words_eq] at inside
      rw [Primary.tree_group]
      refine Phrase.associate_closed binary _ (first fun name member => ?_) ?_
      · exact inside name (List.mem_append_left _ member)
      · intro step stepMember
        obtain ⟨source, sourceMember, rfl⟩ := List.mem_map.mp stepMember
        refine steps source sourceMember fun name member => inside name ?_
        exact List.mem_append_right _ (List.mem_flatMap.mpr
          ⟨source, sourceMember, List.mem_cons_of_mem _ member⟩)

theorem Phrase.tree_closed (negation : ∀ f, P f → P (.negation f))
    (binary : ∀ c left right, P left → P right → P (.binary c left right)) (e : Phrase Primary)
    (atoms : ∀ name, Word.atom name ∈ e.words → P (.atom name)) : P e.tree := by
  have grouped := Primary.tree_closed negation binary (.group e) fun name member => by
    rw [Primary.words_group] at member
    simp only [List.mem_cons, List.mem_append, reduceCtorEq, false_or, List.not_mem_nil,
      or_false] at member
    exact atoms name member
  rwa [Primary.tree_group] at grouped

end Closed

theorem Phrase.tree_concrete (e : Phrase Primary) : e.tree.Concrete :=
  Phrase.tree_closed (fun _ operand => operand) (fun _ _ _ left right => ⟨left, right⟩) e
    fun _ _ => trivial

end Propositional
