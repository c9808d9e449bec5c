import Mathlib.Algebra.Group.Nat.Even
import Propositional.Proofs.Reading.Order

/-!
# Chains of one connective

A text may join primaries by one connective over and over. Its formula nests them to the right
(`tree_chain`), each of them as it is read alone (`Spells.exists_value`). `ofText_chain` gives the
value of the chain from the values of the primaries.
-/

set_option autoImplicit false

namespace Propositional

/-! ## The words of a text -/

/-- The text is scanned into the words. -/
def Spells (source : String) (words : List Word) : Prop :=
  ∃ tokens, Token.ofText source = .ok tokens ∧ tokens.map Token.word = words ++ [.finish]

variable {source : String}

theorem spells_iff {words : List Word} :
    Spells source words ↔ ∃ pieces : List Piece, (∀ piece ∈ pieces, piece.Legal) ∧
      pieces.flatMap Piece.chars = source.toList ∧ pieces.filterMap Piece.word? = words := by
  constructor
  · rintro ⟨tokens, scanned, tokenWords⟩
    obtain ⟨pieces, legal, spelt, rfl⟩ := Token.pieces_of_scan 0 source.toList tokens scanned
    rw [Piece.map_word_place] at tokenWords
    exact ⟨pieces, legal, spelt, List.append_inj_left' tokenWords rfl⟩
  · rintro ⟨pieces, legal, spelt, rfl⟩
    have scanned := Token.scan_pieces 0 pieces legal
    rw [spelt] at scanned
    exact ⟨_, scanned, Piece.map_word_place 0 pieces⟩

theorem Spells.append {left right : String} {words more : List Word} (before : Spells left words)
    (after : Spells right more) : Spells (left ++ right) (words ++ more) := by
  obtain ⟨pieces, legal, spelt, rfl⟩ := spells_iff.mp before
  obtain ⟨others, othersLegal, othersSpelt, rfl⟩ := spells_iff.mp after
  refine spells_iff.mpr ⟨pieces ++ others, List.forall_mem_append.mpr ⟨legal, othersLegal⟩, ?_, ?_⟩
  · rw [List.flatMap_append, spelt, othersSpelt, String.toList_append]
  · exact List.filterMap_append

theorem spells_connective {c : Connective} {raw : String} (lexeme : Lexeme (.connective c) raw) :
    Spells raw [.connective c] := by
  refine spells_iff.mpr ⟨[.lexeme (.connective c) raw], ?_, ?_, rfl⟩
  · exact List.forall_mem_singleton.mpr lexeme
  · exact List.flatMap_singleton Piece.chars _

theorem Spells.ofText {e : Phrase Primary} (spelt : Spells source e.words)
    (covered : e.need ≤ nestingLimit) (low : e.tree.height ≤ printLimit) :
    Formula.ofText source = .ok e.tree := by
  obtain ⟨pieces, legal, chars, words⟩ := spells_iff.mp spelt
  exact (ofText_of_pieces source pieces legal chars e words).1 covered low

theorem Spells.need_le {e : Phrase Primary} (spelt : Spells source e.words) {f : Formula}
    (accepted : Formula.ofText source = .ok f) : e.need ≤ nestingLimit := by
  by_contra exceeded
  obtain ⟨pieces, legal, chars, words⟩ := spells_iff.mp spelt
  obtain ⟨token, refused⟩ :=
    (ofText_of_pieces source pieces legal chars e words).2 (Nat.lt_of_not_le exceeded)
  rw [refused] at accepted
  cases accepted

theorem Spells.eq_tree {e : Phrase Primary} (spelt : Spells source e.words) {f : Formula}
    (accepted : Formula.ofText source = .ok f) : f = e.tree := by
  obtain ⟨tokens, scanned, tokenWords⟩ := spelt
  obtain ⟨others, other, otherScanned, otherWords, rfl⟩ := exists_phrase_of_ofText accepted
  cases scanned.symm.trans otherScanned
  have sameWords := List.append_inj_left' (otherWords.symm.trans tokenWords) rfl
  rw [Phrase.words_injective sameWords]

/-! ## Primaries in a chain -/

namespace Phrase

variable {α : Type}

def chain (c : Connective) (first : α) (others : List α) : Phrase α :=
  ⟨first, others.map fun item => (c, item)⟩

variable {c : Connective}

theorem runs_chain_cons (first next : α) (rest : List α) :
    (chain c first (next :: rest)).runs = [⟨c, next, rest⟩] := by
  change Run.ofSteps ((next :: rest).map fun item => (c, item)) = [⟨c, next, rest⟩]
  induction rest generalizing next with
  | nil => rfl
  | cons item rest ih =>
      rw [List.map_cons, Run.ofSteps, ih item, Run.push, if_pos rfl]
      rfl

theorem tree_chain (first : Primary) (others : List Primary) :
    (chain c first others).tree = Formula.nest c first.tree (others.map Primary.tree) := by
  cases others with
  | nil => rfl
  | cons next rest =>
      rw [tree_eq, runs_chain_cons]
      rfl

theorem words_chain_cons (first next : Primary) (rest : List Primary) :
    (chain c first (next :: rest)).words =
      first.words ++ .connective c :: (chain c next rest).words := by
  rw [words_eq, words_eq]
  rfl

end Phrase

theorem Run.le_needFrom {items : List Nat} {item : Nat} (member : item ∈ items) (before : Nat) :
    item ≤ needFrom before items := by
  induction items generalizing before with
  | nil => cases member
  | cons next rest ih =>
      rw [needFrom]
      rcases List.mem_cons.mp member with rfl | member
      · omega
      · have later := ih member (before + 1)
        omega

theorem Phrase.need_le_of_mem_chain {c : Connective} {first p : Primary} {others : List Primary}
    (member : p ∈ first :: others) : p.need ≤ (chain c first others).need := by
  rw [need_eq]
  rcases List.mem_cons.mp member with rfl | member
  · exact Nat.le_max_left ..
  · cases others with
    | nil => cases member
    | cons next rest =>
        have inRun := Run.le_needFrom (List.mem_map_of_mem (f := Primary.need) member) 0
        rw [runs_chain_cons]
        refine Nat.le_trans inRun (Nat.le_trans ?_ (Nat.le_max_right ..))
        exact Nat.le_max_left ..

theorem Spells.exists_value {p : Primary} {frames : Nat} (spelt : Spells source p.words)
    (enough : p.need ≤ nestingLimit) (walkable : p.tree.Walkable (evaluationLevels frames))
    {σ : Assignment} (covered : σ.Covers p.tree.leaves) :
    ∃ g, Formula.ofText source = .ok g ∧ g.evaluate frames σ = .ok (p.tree.value σ.truth) := by
  have wordsEq : (Phrase.chain .conjunction p []).words = p.words := by
    rw [Phrase.words_eq]
    exact List.append_nil _
  have needEq : (Phrase.chain .conjunction p []).need = p.need := by
    rw [Phrase.need_eq]
    exact Nat.max_zero _
  have printable : p.tree.height ≤ printLimit := Nat.le_trans walkable.2 (evaluationLevels_le frames)
  rw [← wordsEq] at spelt
  rw [← needEq] at enough
  exact ⟨p.tree, spelt.ofText enough printable, Formula.evaluate_eq_value walkable covered⟩

/-! ## The text of a chain -/

/-- An atom, the negation of a primary, or a formula in parentheses, with spacing wherever one
likes. -/
def IsPrimary (source : String) : Prop :=
  ∃ p : Primary, Spells source p.words

def chainText (first : String) : List (String × String) → String
  | [] => first
  | (operator, next) :: rest => first ++ (operator ++ chainText next rest)

theorem exists_chain {c : Connective} {first : String} {others : List (String × String)}
    (operators : ∀ step ∈ others, Lexeme (.connective c) step.1)
    (primaries : ∀ text ∈ first :: others.map Prod.snd, IsPrimary text) :
    ∃ (p : Primary) (items : List Primary),
      List.Forall₂ (fun (item : Primary) text => Spells text item.words) (p :: items)
        (first :: others.map Prod.snd) ∧
      Spells (chainText first others) (Phrase.chain c p items).words := by
  induction others generalizing first with
  | nil =>
      obtain ⟨p, spelt⟩ := primaries first (List.mem_singleton_self first)
      refine ⟨p, [], .cons spelt .nil, ?_⟩
      rw [Phrase.words_eq]
      simpa [chainText, Phrase.chain] using spelt
  | cons step rest ih =>
      obtain ⟨operator, next⟩ := step
      obtain ⟨p, spelt⟩ := primaries first (List.mem_cons_self ..)
      obtain ⟨q, items, itemsSpelt, restSpelt⟩ :=
        ih (fun step member => operators step (List.mem_cons_of_mem _ member))
          fun text member => primaries text (List.mem_cons_of_mem _ member)
      have operatorSpelt := spells_connective (operators (operator, next) (List.mem_cons_self ..))
      refine ⟨p, q :: items, .cons spelt itemsSpelt, ?_⟩
      rw [Phrase.words_chain_cons]
      exact spelt.append (operatorSpelt.append restSpelt)

/-! ## The value of a chain -/

/-- What a connective makes of the values of all items of a chain. Only the last item of a
conditional is concluded, and the others are its premises. An equivalence counts the false ones. -/
def Connective.ChainHolds (c : Connective) (values : List Bool) : Prop :=
  match c with
  | conjunction => ∀ value ∈ values, value = true
  | disjunction => ∃ value ∈ values, value = true
  | conditional => ¬ (values.getLast? = some false ∧ ∀ value ∈ values.dropLast, value = true)
  | equivalence => Even (values.count false)

theorem Connective.chainHolds_singleton (c : Connective) (value : Bool) :
    c.ChainHolds [value] ↔ value = true := by
  cases c <;> cases value <;> simp [ChainHolds]

theorem Connective.chainHolds_cons {c : Connective} {value next later : Bool} {rest : List Bool}
    (laterHolds : later = true ↔ c.ChainHolds (next :: rest)) :
    c.apply value later = true ↔ c.ChainHolds (value :: next :: rest) := by
  cases c with
  | conjunction =>
      rw [ChainHolds] at laterHolds ⊢
      rw [apply, Bool.and_eq_true, laterHolds, List.forall_mem_cons (a := value)]
  | disjunction =>
      rw [ChainHolds] at laterHolds ⊢
      rw [apply, Bool.or_eq_true, laterHolds]
      simp
  | conditional =>
      rw [ChainHolds] at laterHolds ⊢
      rw [List.getLast?_cons_cons, List.dropLast_cons_cons, List.forall_mem_cons]
      cases value with
      | false => simp [apply]
      | true => simpa [apply] using laterHolds
  | equivalence =>
      rw [ChainHolds] at laterHolds ⊢
      rw [List.count_cons]
      cases value with
      | false => simp [apply, Nat.even_add_one, ← laterHolds]
      | true => simp [apply, ← laterHolds]

namespace Formula

variable {c : Connective} {first : Formula} {others : List Formula}

theorem value_nest (truth : String → Bool) :
    (nest c first others).value truth = true ↔
      c.ChainHolds ((first :: others).map (value truth)) := by
  induction others generalizing first with
  | nil => exact (c.chainHolds_singleton _).symm
  | cons next rest ih => exact Connective.chainHolds_cons ih

theorem of_mem_nest {P : Formula → Prop}
    (sides : ∀ left right, P (.binary c left right) → P left ∧ P right)
    (whole : P (nest c first others)) : ∀ f ∈ first :: others, P f := by
  induction others generalizing first with
  | nil => exact List.forall_mem_singleton.mpr whole
  | cons next rest ih =>
      obtain ⟨left, right⟩ := sides first (nest c next rest) whole
      exact List.forall_mem_cons.mpr ⟨left, ih right⟩

end Formula

/-- The value of a chain of primaries follows from their values, and the value of each of them is
that of its text alone. A chain of conjunctions holds if every primary does, and a chain of
disjunctions if some primary does. A chain of conditionals fails if its last primary fails and all
the others hold. A chain of equivalences holds if the number of primaries that fail is even. -/
theorem ofText_chain (c : Connective) (first : String) (others : List (String × String))
    (frames : Nat) (few : frames ≤ callerLimit)
    (operators : ∀ step ∈ others, Lexeme (.connective c) step.1)
    (primaries : ∀ text ∈ first :: others.map Prod.snd, IsPrimary text) (f : Formula)
    (accepted : Formula.ofText (chainText first others) = .ok f) (low : f.height ≤ 401)
    (σ : Assignment) (covered : σ.Covers f.leaves) :
    ∃ (values : List Bool) (value : Bool),
      List.Forall₂
        (fun text value => ∃ g, Formula.ofText text = .ok g ∧ g.evaluate frames σ = .ok value)
        (first :: others.map Prod.snd) values ∧
      f.evaluate frames σ = .ok value ∧ (value = true ↔ c.ChainHolds values) := by
  obtain ⟨p, items, itemsSpelt, chainSpelt⟩ := exists_chain operators primaries
  have enough := chainSpelt.need_le accepted
  have treeEq : f = Formula.nest c p.tree (items.map Primary.tree) := by
    rw [chainSpelt.eq_tree accepted, Phrase.tree_chain]
  have concrete : f.Concrete := by
    rw [chainSpelt.eq_tree accepted]
    exact Phrase.tree_concrete _
  have walkable : f.Walkable (evaluationLevels frames) :=
    Formula.walkable_of_low concrete low (Nat.le_add_right_of_le few)
  rw [treeEq] at walkable covered
  have itemsWalkable := Formula.of_mem_nest (P := (·.Walkable (evaluationLevels frames)))
    (fun _ _ => Formula.Walkable.sides) walkable
  have itemsCovered := Formula.of_mem_nest (P := fun g => σ.Covers g.leaves)
    (fun _ _ => Assignment.covers_append.mp) covered
  have alone : ∀ item ∈ p :: items, ∀ text, Spells text item.words → ∃ g,
      Formula.ofText text = .ok g ∧ g.evaluate frames σ = .ok (item.tree.value σ.truth) := by
    intro item member text spelt
    have treeMember : item.tree ∈ p.tree :: items.map Primary.tree := List.mem_map_of_mem member
    apply spelt.exists_value
    · exact Nat.le_trans (Phrase.need_le_of_mem_chain member) enough
    · exact itemsWalkable item.tree treeMember
    · exact itemsCovered item.tree treeMember
  refine ⟨(p :: items).map fun item => item.tree.value σ.truth, f.value σ.truth, ?_, ?_, ?_⟩
  · refine List.Forall₂.flip (List.forall₂_map_left_iff.mpr ?_)
    exact ((List.forall₂_and_left _ _).mpr ⟨alone, itemsSpelt⟩).imp fun item text found =>
      found.1 text found.2
  · rw [treeEq]
    exact Formula.evaluate_eq_value walkable covered
  · rw [treeEq, Formula.value_nest, List.map_cons, List.map_cons, List.map_map]
    rfl

/-- The conditionals nest to the right, so the chain holds by its first premise. Nested to the left
it would not hold. -/
theorem ofText_chain_conditionals :
    let others := [("->", " -(B V A)"), ("->", "(B)")]
    let formula := Formula.binary .conditional (.atom "A") (.binary .conditional
      (.negation (.binary .disjunction (.atom "B") (.atom "A"))) (.atom "B"))
    let σ := Assignment.ofList [("A", false), ("B", false)]
    (∀ text ∈ " A " :: others.map Prod.snd, IsPrimary text) ∧
      chainText " A " others = " A -> -(B V A)->(B)" ∧
      Formula.ofText " A -> -(B V A)->(B)" = .ok formula ∧ formula.evaluate 1 σ = .ok true ∧
      ∃ (values : List Bool) (value : Bool),
        List.Forall₂
          (fun text value => ∃ g, Formula.ofText text = .ok g ∧ g.evaluate 1 σ = .ok value)
          (" A " :: others.map Prod.snd) values ∧
        formula.evaluate 1 σ = .ok value ∧
        (value = true ↔ Connective.conditional.ChainHolds values) := by
  intro others formula σ
  have operators : ∀ step ∈ others, Lexeme (.connective .conditional) step.1 :=
    List.forall_mem_cons.mpr ⟨.conditional, List.forall_mem_singleton.mpr .conditional⟩
  have letter : IsPrimary " A " :=
    ⟨.atom "A", [⟨.atom, "A", 1⟩, Token.finish 3], by decide +kernel, by decide +kernel⟩
  have negated : IsPrimary " -(B V A)" :=
    ⟨.negation (.group ⟨.atom "B", [(.disjunction, .atom "A")]⟩),
      [⟨.negation, "-", 1⟩, ⟨.opening, "(", 2⟩, ⟨.atom, "B", 3⟩, ⟨.connective .disjunction, "V", 5⟩,
        ⟨.atom, "A", 7⟩, ⟨.closing, ")", 8⟩, Token.finish 9],
      by decide +kernel, by decide +kernel⟩
  have grouped : IsPrimary "(B)" :=
    ⟨.group ⟨.atom "B", []⟩,
      [⟨.opening, "(", 0⟩, ⟨.atom, "B", 1⟩, ⟨.closing, ")", 2⟩, Token.finish 3],
      by decide +kernel, by decide +kernel⟩
  have primaries : ∀ text ∈ " A " :: others.map Prod.snd, IsPrimary text :=
    List.forall_mem_cons.mpr ⟨letter, List.forall_mem_cons.mpr
      ⟨negated, List.forall_mem_singleton.mpr grouped⟩⟩
  have joined : chainText " A " others = " A -> -(B V A)->(B)" := by decide +kernel
  have read : Formula.ofText " A -> -(B V A)->(B)" = .ok formula := by decide +kernel
  have covered : σ.Covers formula.leaves := by
    have given : ∀ name ∈ formula.leaves, σ.get? name = some false := by decide +kernel
    exact fun name member => ⟨false, given name member⟩
  have holds : formula.evaluate 1 σ = .ok true := by decide +kernel
  exact ⟨primaries, joined, read, holds, ofText_chain .conditional " A " others 1 (by decide)
    operators primaries formula (joined ▸ read) (by decide) σ covered⟩

end Propositional
