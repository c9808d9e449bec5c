import Propositional.Proofs.Reading.Verdict
import Propositional.Proofs.Walks

/-!
# Formulas in the place of names

`ofTokens_substitute`: if every atom of one name is replaced by a group, the value of the new
formula is that of the old one where the name stands for the value of the group. A formula that is
true under all assignments stays so, whatever groups take the place of its names.
-/

set_option autoImplicit false

namespace Propositional

/-! ## Substitution in formulas -/

namespace Formula

def subst (image : String → Formula) : Formula → Formula
  | atom name => image name
  | negation operand => negation (operand.subst image)
  | binary c left right => binary c (left.subst image) (right.subst image)
  | unspecified left right => unspecified (left.subst image) (right.subst image)
  | hole => hole

theorem value_subst (image : String → Formula) (truth : String → Bool) (f : Formula) :
    (f.subst image).value truth = f.value fun name => (image name).value truth := by
  induction f with
  | atom name => rfl
  | negation operand ih => simp only [subst, value, ih]
  | binary c left right leftIh rightIh => simp only [subst, value, leftIh, rightIh]
  | unspecified left right _ _ => rfl
  | hole => rfl

theorem leaves_subst (image : String → Formula) (f : Formula) :
    (f.subst image).leaves = f.leaves.flatMap fun name => (image name).leaves := by
  induction f with
  | atom name => simp [subst, leaves]
  | negation operand ih => exact ih
  | binary c left right leftIh rightIh => simp [subst, leaves, leftIh, rightIh]
  | unspecified left right leftIh rightIh => simp [subst, leaves, leftIh, rightIh]
  | hole => rfl

end Formula

/-! ## Substitution in phrases -/

section Homomorphisms

variable {h : Formula → Formula}
  (binary : ∀ c left right, h (.binary c left right) = .binary c (h left) (h right))

include binary

theorem Formula.nest_hom (c : Connective) (first : Formula) (others : List Formula) :
    h (nest c first others) = nest c (h first) (others.map h) := by
  induction others generalizing first with
  | nil => rfl
  | cons next rest ih => rw [nest, binary, ih, List.map_cons, nest]

theorem Phrase.associate_hom (e : Phrase Formula) : h e.associate = (e.map h).associate := by
  rw [associate, associate, runs_map]
  change _ = (e.runs.map (Run.map h)).foldl _ (h e.first)
  generalize e.runs = runs
  generalize e.first = left
  induction runs generalizing left with
  | nil => rfl
  | cons r runs ih =>
      have right : h r.nest = (r.map h).nest := Formula.nest_hom binary r.connective _ _
      rw [List.foldl_cons, ih, binary, right]
      rfl

end Homomorphisms

section Images

variable (image : String → Primary)

def Word.subst : Word → List Word
  | atom name => (image name).words
  | word => [word]

def Primary.subst : Primary → Primary :=
  fold image .negation .group

theorem Primary.subst_group (e : Phrase Primary) :
    (group e).subst image = group (e.map (subst image)) :=
  fold_group _ _ _ e

theorem Primary.words_subst (p : Primary) :
    (p.subst image).words = p.words.flatMap (Word.subst image) := by
  induction p with
  | atom name => exact (List.append_nil _).symm
  | negation p ih =>
      change Word.negation :: (p.subst image).words = _
      rw [ih]
      rfl
  | group e first steps =>
      have inside : (e.map (subst image)).words = e.words.flatMap (Word.subst image) := by
        rw [Phrase.words_eq, Phrase.words_eq, List.flatMap_append, List.flatMap_assoc, ← first,
          Phrase.map, List.flatMap_map]
        congr 1
        refine List.flatMap_congr fun step member => ?_
        rw [stepWords, stepWords, steps step member]
        rfl
      rw [subst_group, words_group, inside]
      simp [Word.subst]

theorem Phrase.words_subst (e : Phrase Primary) :
    (e.map (Primary.subst image)).words = e.words.flatMap (Word.subst image) := by
  simpa [Primary.subst_group, Word.subst] using (Primary.group e).words_subst image

theorem Primary.tree_subst (p : Primary) :
    (p.subst image).tree = p.tree.subst fun name => (image name).tree := by
  induction p with
  | atom name => rfl
  | negation p ih => exact congrArg Formula.negation ih
  | group e first steps =>
      have grouped : ∀ f : Phrase Formula,
          f.associate.subst (fun name => (image name).tree) =
            (f.map (Formula.subst fun name => (image name).tree)).associate :=
        Phrase.associate_hom fun _ _ _ => rfl
      rw [subst_group, tree_group, tree_group, Phrase.tree, Phrase.tree, grouped, Phrase.map_map,
        Phrase.map_map]
      exact congrArg Phrase.associate (Phrase.map_congr first steps)

theorem Phrase.tree_subst (e : Phrase Primary) :
    (e.map (Primary.subst image)).tree = e.tree.subst fun name => (image name).tree := by
  have grouped := (Primary.group e).tree_subst image
  rwa [Primary.subst_group, Primary.tree_group, Primary.tree_group] at grouped

end Images

/-! ## Substitution in token sequences -/

namespace Token

/-- What is put in the place of a token, if anything is: that of its name for an atom. -/
def contentFor (content : String → Option (List Token)) (t : Token) : Option (List Token) :=
  if t.kind = .atom then content t.raw else none

def replacement (opening closing : Token) (content : String → Option (List Token)) (t : Token) :
    List Token :=
  match contentFor content t with
  | some w => opening :: (w ++ [closing])
  | none => [t]

/-- The sequence with its atoms replaced by groups, as far as their names have a content. -/
def substitute (opening closing : Token) (content : String → Option (List Token))
    (tokens : List Token) : List Token :=
  tokens.flatMap (replacement opening closing content)

theorem substitute_cons (opening closing : Token) (content : String → Option (List Token))
    (t : Token) (rest : List Token) :
    substitute opening closing content (t :: rest) =
      replacement opening closing content t ++ substitute opening closing content rest :=
  List.flatMap_cons

def only (name : String) (w : List Token) (other : String) : Option (List Token) :=
  if other = name then some w else none

theorem beforeFinish_append (front back : List Token) :
    beforeFinish (front ++ back) =
      if beforeFinish front = front then front ++ beforeFinish back else beforeFinish front := by
  induction front with
  | nil => rfl
  | cons t rest ih =>
      rw [List.cons_append, beforeFinish_cons, beforeFinish_cons, ih]
      by_cases isFinish : t.kind = .finish
      · simp [isFinish]
      · by_cases endless : beforeFinish rest = rest <;> simp [isFinish, endless]

variable {opening closing : Token} {content : String → Option (List Token)}

theorem beforeFinish_replacement (opens : opening.kind = .opening)
    (closes : closing.kind = .closing) {t : Token} (goesOn : t.kind ≠ .finish) :
    (beforeFinish (replacement opening closing content t) =
        replacement opening closing content t ∧
      ∀ w, contentFor content t = some w → beforeFinish w = w) ∨
    ∃ w, contentFor content t = some w ∧
      beforeFinish (replacement opening closing content t) = opening :: beforeFinish w ∧
      opening :: beforeFinish w ≠ replacement opening closing content t := by
  cases found : contentFor content t with
  | none =>
      left
      refine ⟨?_, nofun⟩
      simp only [replacement, found, beforeFinish_cons, if_neg goesOn]
      rfl
  | some w =>
      have opened : opening.kind ≠ .finish := by simp [opens]
      have closed : beforeFinish [closing] = [closing] := by
        rw [beforeFinish_cons, if_neg (by simp [closes])]
        rfl
      have cut : beforeFinish (opening :: (w ++ [closing])) =
          opening :: (if beforeFinish w = w then w ++ [closing] else beforeFinish w) := by
        rw [beforeFinish_cons, if_neg opened, beforeFinish_append, closed]
      simp only [replacement, found, cut]
      by_cases endless : beforeFinish w = w
      · left
        simp [endless]
      · right
        have shorter : (beforeFinish w).length ≤ w.length := (List.takeWhile_prefix _).length_le
        refine ⟨w, rfl, by rw [if_neg endless], fun same => ?_⟩
        have lengths := congrArg List.length same
        simp only [List.length_cons, List.length_append, List.length_nil] at lengths
        omega

/-- No content has an end token before the end of the sequence, or the new sequence ends in the
first content that has one, with the group still open. -/
theorem beforeFinish_substitute (opens : opening.kind = .opening) (closes : closing.kind = .closing)
    (u : List Token) :
    ((∀ t ∈ beforeFinish u, ∀ w, contentFor content t = some w → beforeFinish w = w) ∧
      beforeFinish (substitute opening closing content u) =
        substitute opening closing content (beforeFinish u)) ∨
    ∃ front t w, contentFor content t = some w ∧
      beforeFinish (substitute opening closing content u) =
        front ++ opening :: beforeFinish w := by
  induction u with
  | nil => exact .inl ⟨nofun, rfl⟩
  | cons t rest ih =>
      rw [substitute_cons, beforeFinish_append, beforeFinish_cons]
      by_cases isFinish : t.kind = .finish
      · left
        simp [replacement, contentFor, isFinish, beforeFinish_cons, substitute]
      · rw [if_neg isFinish, substitute_cons]
        rcases beforeFinish_replacement opens closes isFinish with
          ⟨passes, endless⟩ | ⟨w, found, cut, stops⟩
        · rw [if_pos passes]
          rcases ih with ⟨laterEndless, same⟩ | ⟨front, other, w, found, same⟩
          · left
            exact ⟨List.forall_mem_cons.mpr ⟨endless, laterEndless⟩, congrArg _ same⟩
          · right
            refine ⟨replacement opening closing content t ++ front, other, w, found, ?_⟩
            rw [List.append_assoc]
            exact congrArg _ same
        · right
          rw [cut, if_neg stops]
          exact ⟨[], t, w, found, rfl⟩

/-- The formulas that take the place of the names: those of their contents, and the atoms of the
names without any. -/
def Means (content : String → Option (List Token)) (image : String → Formula) : Prop :=
  ∀ name, match content name with
    | some w => Formula.ofTokens (w.map some) = .ok (image name)
    | none => image name = .atom name

end Token

section Substituted

open Token

variable {opening closing : Token} {content : String → Option (List Token)}
  {image : String → Formula}

def Primary.TakesPlace (content : String → Option (List Token)) (name : String) (p : Primary) :
    Prop :=
  match content name with
  | some w => p.words = .opening :: ((beforeFinish w).map word ++ [.closing])
  | none => p.words = [.atom name]

theorem exists_primary (means : Means content image) (name : String) :
    ∃ p : Primary, p.tree = image name ∧ p.TakesPlace content name := by
  have meaning := means name
  unfold Primary.TakesPlace
  cases found : content name with
  | none =>
      rw [found] at meaning
      exact ⟨.atom name, meaning.symm, rfl⟩
  | some w =>
      rw [found] at meaning
      obtain ⟨e, derives, _, treeEq⟩ := derives_of_ofTokens w (image name) meaning
      refine ⟨.group e, by rw [Primary.tree_group, treeEq], ?_⟩
      change (Primary.group e).words = _
      rw [Primary.words_group, ← derives]

theorem word_replacement (opens : opening.kind = .opening) (closes : closing.kind = .closing)
    {primary : String → Primary} {t : Token}
    (endless : ∀ w, contentFor content t = some w → beforeFinish w = w)
    (spelt : (primary t.raw).TakesPlace content t.raw) :
    (replacement opening closing content t).map word = t.word.subst primary := by
  by_cases isAtom : t.kind = .atom
  · have here : contentFor content t = content t.raw := if_pos isAtom
    rw [word_eq_atom.mpr ⟨isAtom, rfl⟩, Word.subst, replacement, here]
    rw [here] at endless
    unfold Primary.TakesPlace at spelt
    cases found : content t.raw with
    | none =>
        rw [found] at spelt
        rw [spelt]
        exact congrArg (fun word => [word]) (word_eq_atom.mpr ⟨isAtom, rfl⟩)
    | some w =>
        rw [found] at spelt
        rw [spelt, endless w found]
        simp [word_eq_opening.mpr opens, word_eq_closing.mpr closes]
  · have kept : contentFor content t = none := if_neg isAtom
    rw [replacement, kept]
    cases kind : t.kind <;> simp_all [word, Word.subst]

theorem tree_of_substitute (opens : opening.kind = .opening) (closes : closing.kind = .closing)
    (means : Means content image) {u : List Token} {f h : Formula}
    (accepted : Formula.ofTokens (u.map some) = .ok f)
    (substituted : Formula.ofTokens ((substitute opening closing content u).map some) = .ok h) :
    h = f.subst image := by
  obtain ⟨e, derives, _, rfl⟩ := derives_of_ofTokens u f accepted
  obtain ⟨d, whole, _, rfl⟩ := derives_of_ofTokens _ h substituted
  rcases @beforeFinish_substitute opening closing content opens closes u with
    ⟨endless, cut⟩ | ⟨front, t, w, found, cut⟩
  · choose primary trees spelt using exists_primary means
    have words : d.words = (e.map (Primary.subst primary)).words := by
      rw [← whole, cut, Phrase.words_subst, ← derives, substitute, List.map_flatMap,
        List.flatMap_map]
      refine List.flatMap_congr fun t member => ?_
      exact word_replacement opens closes (endless t member) (spelt t.raw)
    rw [Phrase.words_injective words, Phrase.tree_subst]
    congr 1
    exact funext trees
  · -- the content is a formula by itself, so an end inside of it leaves the group open
    have isFormula := verdict_of_ok substituted
    rw [Token.verdict, cut] at isFormula
    have named : content t.raw = some w := by
      unfold contentFor at found
      split at found
      · exact found
      · cases found
    have meaning := means t.raw
    rw [named] at meaning
    exact absurd isFormula (Survey.not_formula_of_open_group opens (verdict_of_ok meaning))

end Substituted

/-! ## Values -/

namespace Formula

variable {f : Formula} {image : String → Formula} {frames : Nat} {σ : Assignment}

theorem evaluate_subst (walkable : (f.subst image).Walkable (evaluationLevels frames))
    (covered : σ.Covers (f.subst image).leaves) :
    (f.subst image).evaluate frames σ = .ok (f.value fun name => (image name).value σ.truth) := by
  rw [evaluate_eq_value walkable covered, value_subst]

theorem evaluate_subst_update {name : String} {g : Formula}
    (walkable : f.Walkable (evaluationLevels frames))
    (substWalkable :
      (f.subst (Function.update atom name g)).Walkable (evaluationLevels frames))
    (covered : σ.Covers (f.subst (Function.update atom name g)).leaves) :
    (f.subst (Function.update atom name g)).evaluate frames σ =
      f.evaluate frames (σ.insert name (g.value σ.truth)) := by
  have truths : (fun other => (Function.update atom name g other).value σ.truth) =
      Function.update σ.truth name (g.value σ.truth) := by
    funext other
    by_cases same : other = name
    · subst same
      simp
    · simp [same, value]
  have insertCovered : (σ.insert name (g.value σ.truth)).Covers f.leaves := by
    intro other member
    rw [Assignment.get?_insert]
    by_cases same : other = name
    · exact ⟨_, if_pos same⟩
    · rw [if_neg same]
      refine covered other ?_
      rw [leaves_subst]
      exact List.mem_flatMap.mpr ⟨other, member, by simp [same, leaves]⟩
  rw [evaluate_subst substWalkable covered, truths,
    evaluate_eq_value walkable insertCovered, Assignment.truth_insert]

theorem value_of_valid (walkable : f.Walkable (evaluationLevels frames))
    (valid : ∀ σ : Assignment, σ.Covers f.leaves → f.evaluate frames σ = .ok true)
    (truth : String → Bool) : f.value truth = true := by
  obtain ⟨σ, given⟩ := Assignment.exists_assignment truth f.leaves
  have covered : σ.Covers f.leaves := fun name member => ⟨_, given name member⟩
  have same : f.value σ.truth = f.value truth := value_congr fun name member => by
    rw [Assignment.truth, given name member]
    rfl
  have evaluated := valid σ covered
  rw [evaluate_eq_value walkable covered, same] at evaluated
  exact Except.ok.inj evaluated

end Formula

open Formula

theorem walkable_of_ofTokens {tokens : List Token} {f : Formula} {frames : Nat}
    (accepted : Formula.ofTokens (tokens.map some) = .ok f) (low : f.height ≤ 401)
    (few : frames ≤ callerLimit) : f.Walkable (evaluationLevels frames) :=
  walkable_of_low (concrete_of_ofTokens accepted) low (Nat.le_add_right_of_le few)

theorem Token.means_only {w : List Token} {g : Formula} {name : String}
    (accepted : Formula.ofTokens (w.map some) = .ok g) :
    Token.Means (Token.only name w) (Function.update atom name g) := by
  intro other
  by_cases same : other = name
  · subst same
    simpa [Token.only] using accepted
  · simp [Token.only, same]

theorem Token.exists_means {content : String → Option (List Token)}
    (accepted : ∀ name w, content name = some w →
      ∃ g, Formula.ofTokens (w.map some) = .ok g) :
    ∃ image, Token.Means content image := by
  have each : ∀ name, ∃ g : Formula, match content name with
      | some w => Formula.ofTokens (w.map some) = .ok g
      | none => g = .atom name := by
    intro name
    cases found : content name with
    | none => exact ⟨_, rfl⟩
    | some w => exact accepted name w found
  choose image means using each
  exact ⟨image, means⟩

/-- Replacing a name by a group makes the formula what it was under the assignment that gives the
name the value of the group. And a formula that is true under every assignment of its atoms stays
so, whichever names are replaced and by whatever groups. -/
theorem ofTokens_substitute (u : List Token) (f : Formula) (opening closing : Token)
    (frames : Nat) (few : frames ≤ callerLimit)
    (opens : opening.kind = .opening) (closes : closing.kind = .closing)
    (accepted : Formula.ofTokens (u.map some) = .ok f) (low : f.height ≤ 401) :
    (∀ (w : List Token) (g : Formula) (name : String) (h : Formula),
      Formula.ofTokens (w.map some) = .ok g → g.height ≤ 401 →
      Formula.ofTokens
        ((Token.substitute opening closing (Token.only name w) u).map some) = .ok h →
      h.height ≤ 401 →
      ∀ σ : Assignment, σ.Covers h.leaves → σ.Covers g.leaves →
        ∃ value result, g.evaluate frames σ = .ok value ∧ h.evaluate frames σ = .ok result ∧
          f.evaluate frames (σ.insert name value) = .ok result) ∧
    ((∀ σ : Assignment, σ.Covers f.leaves → f.evaluate frames σ = .ok true) →
      ∀ (content : String → Option (List Token)) (h : Formula),
        (∀ name w, content name = some w → ∃ g, Formula.ofTokens (w.map some) = .ok g) →
        Formula.ofTokens ((Token.substitute opening closing content u).map some) = .ok h →
        h.height ≤ 401 →
        ∀ σ : Assignment, σ.Covers h.leaves → h.evaluate frames σ = .ok true) := by
  have walkable := walkable_of_ofTokens accepted low few
  constructor
  · intro w g name h contentAccepted contentLow substituted substLow σ covered contentCovered
    have substWalkable := walkable_of_ofTokens substituted substLow few
    obtain rfl := tree_of_substitute opens closes (Token.means_only contentAccepted) accepted
      substituted
    refine ⟨g.value σ.truth, _, ?_, evaluate_subst substWalkable covered, ?_⟩
    · exact evaluate_eq_value (walkable_of_ofTokens contentAccepted contentLow few) contentCovered
    · rw [← evaluate_subst_update walkable substWalkable covered,
        evaluate_subst substWalkable covered]
  · intro valid content h contents substituted substLow σ covered
    have substWalkable := walkable_of_ofTokens substituted substLow few
    obtain ⟨image, means⟩ := Token.exists_means contents
    obtain rfl := tree_of_substitute opens closes means accepted substituted
    rw [evaluate_subst substWalkable covered, value_of_valid walkable valid]

/-- In `A -> B` the name `A` is replaced by `A v B`, which itself holds the name, and the result is
false where `A` is true and `B` false. In `A v -A` the same replacement gives another formula that
is true throughout. -/
theorem ofTokens_substitute_conditional :
    let letter (name : String) : Token := { kind := .atom, raw := name }
    let operator (c : Connective) : Token := { kind := .connective c, raw := c.symbol }
    let sign : Token := { kind := .negation, raw := "-" }
    let opening : Token := { kind := .opening, raw := "(" }
    let closing : Token := { kind := .closing, raw := ")" }
    let w := [letter "A", operator .disjunction, letter "B"]
    let g := Formula.binary .disjunction (.atom "A") (.atom "B")
    let u := [letter "A", operator .conditional, letter "B"]
    let f := Formula.binary .conditional (.atom "A") (.atom "B")
    let h := Formula.binary .conditional g (.atom "B")
    let middle := [letter "A", operator .disjunction, sign, letter "A", Token.finish]
    let either := Formula.binary .disjunction g (.negation g)
    let σ := Assignment.ofList [("B", false), ("A", true)]
    Formula.ofTokens ((Token.substitute opening closing (Token.only "A" w) u).map some) = .ok h ∧
      (∃ value result, g.evaluate 1 σ = .ok value ∧ h.evaluate 1 σ = .ok result ∧
        f.evaluate 1 (σ.insert "A" value) = .ok result ∧ value = true ∧ result = false) ∧
      Formula.ofTokens ((Token.substitute opening closing (Token.only "A" w) middle).map some) =
        .ok either ∧
      ∀ τ : Assignment, τ.Covers either.leaves → either.evaluate 1 τ = .ok true := by
  intro letter operator sign opening closing w g u f h middle either σ
  have contentAccepted : Formula.ofTokens (w.map some) = .ok g := by decide +kernel
  have accepted : Formula.ofTokens (u.map some) = .ok f := by decide +kernel
  have substituted : Formula.ofTokens
      ((Token.substitute opening closing (Token.only "A" w) u).map some) = .ok h := by
    decide +kernel
  have middleAccepted : Formula.ofTokens (middle.map some) =
      .ok (.binary .disjunction (.atom "A") (.negation (.atom "A"))) := by decide +kernel
  have middleSubstituted : Formula.ofTokens
      ((Token.substitute opening closing (Token.only "A" w) middle).map some) = .ok either := by
    decide +kernel
  have covered (names : List String) (known : names ⊆ ["A", "B"]) : σ.Covers names := by
    intro name member
    rcases List.mem_pair.mp (known member) with rfl | rfl
    · exact ⟨true, by decide⟩
    · exact ⟨false, by decide⟩
  refine ⟨substituted, ?_, middleSubstituted, ?_⟩
  · obtain ⟨value, result, first, second, third⟩ :=
      (ofTokens_substitute u f opening closing 1 (by decide) rfl rfl accepted (by decide)).1 w g "A"
        h contentAccepted (by decide) substituted (by decide) σ (covered _ (by decide))
        (covered _ (by decide))
    have isTrue : g.evaluate 1 σ = .ok true := by decide
    have isFalse : h.evaluate 1 σ = .ok false := by decide
    cases first.symm.trans isTrue
    cases second.symm.trans isFalse
    exact ⟨true, false, first, second, third, rfl, rfl⟩
  · refine (ofTokens_substitute middle _ opening closing 1 (by decide) rfl rfl middleAccepted
      (by decide)).2 (fun τ known => ?_) _ either (fun name content found => ?_) middleSubstituted
      (by decide)
    · rw [evaluate_eq_value (walkable_of_ofTokens middleAccepted (by decide) (by decide)) known]
      simp [value, Connective.apply]
    · unfold Token.only at found
      split at found
      · cases found
        exact ⟨g, contentAccepted⟩
      · cases found

end Propositional
