import Mathlib.Data.Finset.Basic
import Mathlib.Data.List.TakeWhile
import Propositional.Proofs.Grafting
import Propositional.Proofs.Reading.Verdict

/-!
# Groups in the place of atoms

`ofTokens_replaceAt`: if some of the atoms of an accepted sequence are replaced by a group with an
accepted sequence in it, the formula has the formula of the group in the place of those leaves,
unless the new sequence nests too deeply. If the content of the group is balanced and no formula,
the new sequence is none either.
-/

set_option autoImplicit false

namespace Propositional

open Formula

namespace Token

theorem beforeFinish_eq_self {tokens : List Token} (endless : ∀ t ∈ tokens, t.kind ≠ .finish) :
    beforeFinish tokens = tokens :=
  List.takeWhile_eq_self_iff.mpr fun t member => decide_eq_true (endless t member)

theorem names_of_words (tokens : List Token) :
    (tokens.map word).filterMap Word.name? =
      (tokens.filter fun t => t.kind = .atom).map Token.raw := by
  induction tokens with
  | nil => rfl
  | cons t rest ih =>
      cases kind : t.kind <;> simp [List.filterMap_cons, word, Word.name?, kind, ih]

/-- The sequence with a group in the place of the tokens at the chosen positions. -/
def replaceAt (chosen : Finset Nat) (group tokens : List Token) : List Token :=
  tokens.zipIdx.flatMap fun entry => if entry.2 ∈ chosen then group else [entry.1]

/-- What the atoms of a sequence stand for, from left to right: those at the chosen positions for
the formula `g`, and the others for themselves. -/
def seeds (chosen : Finset Nat) (g : Formula) (tokens : List Token) : List Formula :=
  tokens.zipIdx.filterMap fun entry =>
    if entry.1.kind = .atom then some (if entry.2 ∈ chosen then g else .atom entry.1.raw) else none

end Token

section Replacement

variable {chosen : Finset Nat} {opening closing : Token} {u w : List Token}

theorem replaceAt_endless (opens : opening.kind = .opening) (closes : closing.kind = .closing)
    (uEndless : ∀ t ∈ u, t.kind ≠ .finish) (wEndless : ∀ t ∈ w, t.kind ≠ .finish) :
    ∀ t ∈ Token.replaceAt chosen (opening :: (w ++ [closing])) u, t.kind ≠ .finish := by
  intro t member
  obtain ⟨⟨old, i⟩, oldMember, member⟩ := List.mem_flatMap.mp member
  have inSequence : old ∈ u := (List.mem_zipIdx oldMember).2.2 ▸ List.getElem_mem _
  by_cases isChosen : i ∈ chosen
  · rw [if_pos isChosen] at member
    simp only [List.mem_cons, List.mem_append, List.not_mem_nil, or_false] at member
    rcases member with rfl | member | rfl
    · rw [opens]
      nofun
    · exact wEndless t member
    · rw [closes]
      nofun
  · rw [if_neg isChosen] at member
    rw [List.mem_singleton.mp member]
    exact uEndless old inSequence

def patchesAt (chosen : Finset Nat) (content : Phrase Primary) (tokens : List Token) :
    List Patch :=
  tokens.zipIdx.map fun entry =>
    ⟨entry.1.word, if entry.2 ∈ chosen then .group content else .atom entry.1.raw⟩

theorem word_patchesAt (content : Phrase Primary) :
    (patchesAt chosen content u).map Patch.word = u.map Token.word := by
  have entries : u.zipIdx.map (fun entry => entry.1.word) =
      (u.zipIdx.map Prod.fst).map Token.word := by
    rw [List.map_map]
    rfl
  rw [List.zipIdx_map_fst] at entries
  rw [patchesAt, List.map_map]
  exact entries

theorem words_patchesAt (opens : opening.kind = .opening) (closes : closing.kind = .closing)
    (atoms : ∀ i ∈ chosen, ∃ t, u[i]? = some t ∧ t.kind = .atom) {content : Phrase Primary}
    (derives : content.Derives w) :
    (patchesAt chosen content u).flatMap Patch.words =
      (Token.replaceAt chosen (opening :: (w ++ [closing])) u).map Token.word := by
  rw [patchesAt, Token.replaceAt, List.flatMap_map, List.map_flatMap]
  refine List.flatMap_congr fun entry member => ?_
  obtain ⟨token, i⟩ := entry
  have found : u[i]? = some token := List.mem_zipIdx_iff_getElem?.mp member
  by_cases isChosen : i ∈ chosen
  · obtain ⟨other, otherFound, kind⟩ := atoms i isChosen
    cases found.symm.trans otherFound
    have word : token.word = .atom token.raw := Token.word_eq_atom.mpr ⟨kind, rfl⟩
    have spelt : w.map Token.word = content.words := derives
    simp [isChosen, word, Patch.words, ← spelt, Token.word_eq_opening.mpr opens,
      Token.word_eq_closing.mpr closes]
  · cases kind : token.kind <;> simp [isChosen, Patch.words, Token.word, kind]

theorem seeds_patchesAt (content : Phrase Primary) :
    (patchesAt chosen content u).filterMap Patch.seed? = Token.seeds chosen content.tree u := by
  rw [patchesAt, Token.seeds, List.filterMap_map]
  refine List.filterMap_congr fun entry _ => ?_
  obtain ⟨token, i⟩ := entry
  by_cases isChosen : i ∈ chosen
  · cases kind : token.kind <;> simp [isChosen, Patch.seed?, Token.word, kind]
  · cases kind : token.kind <;> simp [isChosen, Patch.seed?, Token.word, kind]

theorem replaceAt_derives (opens : opening.kind = .opening) (closes : closing.kind = .closing)
    (atoms : ∀ i ∈ chosen, ∃ t, u[i]? = some t ∧ t.kind = .atom) {e content : Phrase Primary}
    (derives : e.Derives u) (contentDerives : content.Derives w) :
    ∃ f : Phrase Primary, f.Derives (Token.replaceAt chosen (opening :: (w ++ [closing])) u) ∧
      f.tree = e.tree.plant (Token.seeds chosen content.tree u) := by
  obtain ⟨f, grows, words⟩ :=
    e.patched (patchesAt chosen content u) ((word_patchesAt content).trans derives)
  rw [words_patchesAt opens closes atoms contentDerives] at words
  rw [seeds_patchesAt] at grows
  exact ⟨f, words.symm, grows.2.symm⟩

theorem content_accepted (opens : opening.kind = .opening) (closes : closing.kind = .closing)
    (balanced : Token.Balanced w) (finish other : Token) (s : Survey) (front back : List Token)
    (isFormula : s.verdict finish (front ++ (opening :: (w ++ [closing])) ++ back) = .formula) :
    Survey.verdict other .start w = .formula := by
  obtain ⟨last, passed⟩ := Survey.run_of_formula isFormula
  rw [Survey.run_append, Survey.run_append] at passed
  obtain ⟨behind, passed, _⟩ := bind_eq_ok passed
  obtain ⟨before, _, passed⟩ := bind_eq_ok passed
  obtain ⟨entered, opened, passed⟩ := bind_eq_ok passed
  have step : before.step opening = .ok ⟨.group opening 0 before.entered, false⟩ := by
    simp [Survey.step, opens]
  cases opened.symm.trans step
  exact Survey.verdict_of_group closes balanced passed

theorem replaceAt_split {i : Nat} {t : Token} (found : u[i]? = some t) (isChosen : i ∈ chosen)
    (group : List Token) :
    ∃ front back, Token.replaceAt chosen group u = front ++ group ++ back := by
  have member : (t, i) ∈ u.zipIdx := List.mem_zipIdx_iff_getElem?.mpr found
  obtain ⟨front, back, split⟩ := List.append_of_mem member
  refine ⟨front.flatMap fun entry => if entry.2 ∈ chosen then group else [entry.1],
    back.flatMap fun entry => if entry.2 ∈ chosen then group else [entry.1], ?_⟩
  rw [Token.replaceAt, split, List.flatMap_append, List.flatMap_cons, if_pos isChosen,
    List.append_assoc]

theorem accepted_or_deep_of_content (opens : opening.kind = .opening)
    (closes : closing.kind = .closing) (uEndless : ∀ t ∈ u, t.kind ≠ .finish)
    (wEndless : ∀ t ∈ w, t.kind ≠ .finish)
    (atoms : ∀ i ∈ chosen, ∃ t, u[i]? = some t ∧ t.kind = .atom) {e : Phrase Primary}
    (derives : e.Derives u) {g : Formula} (accepted : Formula.ofTokens (w.map some) = .ok g) :
    (∃ cause, Formula.ofTokens
        ((Token.replaceAt chosen (opening :: (w ++ [closing])) u).map some) = .error cause ∧
      cause.message = "Formula is nested too deeply") ∨
    Formula.ofTokens ((Token.replaceAt chosen (opening :: (w ++ [closing])) u).map some) =
      .ok (e.tree.plant (Token.seeds chosen g u)) := by
  obtain ⟨content, contentDerives, _, rfl⟩ := derives_of_ofTokens w g accepted
  rw [Token.beforeFinish_eq_self wEndless] at contentDerives
  obtain ⟨grown, grownDerives, treeEq⟩ :=
    replaceAt_derives opens closes atoms derives contentDerives
  have endless := @replaceAt_endless chosen opening closing u w opens closes uEndless wEndless
  rw [← Token.beforeFinish_eq_self endless] at grownDerives
  rw [← treeEq]
  exact ofTokens_derived_or_deep _ grown grownDerives

theorem refused_of_content (opens : opening.kind = .opening) (closes : closing.kind = .closing)
    (uEndless : ∀ t ∈ u, t.kind ≠ .finish) (wEndless : ∀ t ∈ w, t.kind ≠ .finish) {i : Nat}
    {t : Token} (found : u[i]? = some t) (isChosen : i ∈ chosen) (balanced : Token.Balanced w)
    {cause : ParseError} (refused : Formula.ofTokens (w.map some) = .error cause)
    (shallow : cause.message ≠ "Formula is nested too deeply") :
    ∃ refusal, Formula.ofTokens
      ((Token.replaceAt chosen (opening :: (w ++ [closing])) u).map some) = .error refusal := by
  have endless := @replaceAt_endless chosen opening closing u w opens closes uEndless wEndless
  obtain ⟨front, back, split⟩ := replaceAt_split found isChosen (opening :: (w ++ [closing]))
  cases outcome : Formula.ofTokens
      ((Token.replaceAt chosen (opening :: (w ++ [closing])) u).map some) with
  | error refusal => exact ⟨refusal, rfl⟩
  | ok h =>
      -- a survey that finds a formula in the whole finds one in the group, against `refused`
      have isFormula := verdict_of_ok outcome
      rw [Token.verdict, Token.beforeFinish_eq_self endless, split] at isFormula
      have contentFormula : Token.verdict w = .formula := by
        rw [Token.verdict, Token.beforeFinish_eq_self wEndless]
        exact content_accepted opens closes balanced _ _ _ front back isFormula
      have expressed := verdict_of_error refused shallow
      rw [contentFormula] at expressed
      exact absurd expressed (Verdict.ofError_ne_formula cause)

end Replacement

/-- Replacing atoms by a group puts the formula of the group in the place of their leaves, unless
that nests too deeply; and a group with a balanced content that is no formula is refused
everywhere. -/
theorem ofTokens_replaceAt (u w : List Token) (f : Formula) (chosen : Finset Nat)
    (opening closing : Token) (opens : opening.kind = .opening) (closes : closing.kind = .closing)
    (uEndless : ∀ t ∈ u, t.kind ≠ .finish) (wEndless : ∀ t ∈ w, t.kind ≠ .finish)
    (atoms : ∀ i ∈ chosen, ∃ t, u[i]? = some t ∧ t.kind = .atom)
    (accepted : Formula.ofTokens (u.map some) = .ok f) :
    let replaced := Token.replaceAt chosen (opening :: (w ++ [closing])) u
    f.leaves = (u.filter fun t => t.kind = .atom).map Token.raw ∧
    (∀ g, Formula.ofTokens (w.map some) = .ok g →
      (∃ cause, Formula.ofTokens (replaced.map some) = .error cause ∧
        cause.message = "Formula is nested too deeply") ∨
      Formula.ofTokens (replaced.map some) = .ok (f.plant (Token.seeds chosen g u))) ∧
    (Token.Balanced w →
      ∀ cause, Formula.ofTokens (w.map some) = .error cause →
        cause.message ≠ "Formula is nested too deeply" → chosen.Nonempty →
          ∃ refusal, Formula.ofTokens (replaced.map some) = .error refusal) := by
  intro replaced
  obtain ⟨e, derives, _, rfl⟩ := derives_of_ofTokens u f accepted
  rw [Token.beforeFinish_eq_self uEndless] at derives
  refine ⟨?_, ?_, ?_⟩
  · rw [Phrase.tree_leaves, ← derives, Token.names_of_words]
  · intro g contentAccepted
    exact accepted_or_deep_of_content opens closes uEndless wEndless atoms derives contentAccepted
  · intro balanced cause refused shallow nonempty
    obtain ⟨i, isChosen⟩ := nonempty
    obtain ⟨t, found, _⟩ := atoms i isChosen
    exact refused_of_content opens closes uEndless wEndless found isChosen balanced refused shallow

theorem ofTokens_replaceAt_second_atom :
    let letter (name : String) : Token := { kind := .atom, raw := name }
    let operator (c : Connective) : Token := { kind := .connective c, raw := c.symbol }
    let u := [letter "A", operator .conjunction, letter "B"]
    let inside (w : List Token) := Token.replaceAt {2}
      ({ kind := .opening, raw := "(" } :: (w ++ [{ kind := .closing, raw := ")" }])) u
    let formula := inside [letter "C", operator .disjunction, letter "D"]
    let pair := inside [letter "C", letter "D"]
    ((∃ cause, Formula.ofTokens (formula.map some) = .error cause ∧
        cause.message = "Formula is nested too deeply") ∨
      Formula.ofTokens (formula.map some) = .ok (.binary .conjunction (.atom "A")
        (.binary .disjunction (.atom "C") (.atom "D")))) ∧
      ∃ refusal, Formula.ofTokens (pair.map some) = .error refusal := by
  intro letter operator u inside formula pair
  have accepted : Formula.ofTokens (u.map some) =
      .ok (.binary .conjunction (.atom "A") (.atom "B")) := by decide +kernel
  have contentAccepted : Formula.ofTokens
      ([letter "C", operator .disjunction, letter "D"].map some) =
        .ok (.binary .disjunction (.atom "C") (.atom "D")) := by decide +kernel
  have contentRefused : Formula.ofTokens ([letter "C", letter "D"].map some) =
      .error (.several ["C", "D"]) := by decide +kernel
  have balanced : Token.Balanced [letter "C", letter "D"] :=
    ⟨fun front isPrefix => Nat.le_trans isPrefix.sublist.countP_le (Nat.zero_le _), rfl⟩
  have atoms : ∀ i ∈ ({2} : Finset Nat), ∃ t, u[i]? = some t ∧ t.kind = .atom := by
    intro i isChosen
    rw [Finset.mem_singleton.mp isChosen]
    exact ⟨letter "B", rfl, rfl⟩
  have replacing (w : List Token) (endless : ∀ t ∈ w, t.kind ≠ .finish) :=
    ofTokens_replaceAt u w _ {2} { kind := .opening, raw := "(" } { kind := .closing, raw := ")" }
      rfl rfl (by decide) endless atoms accepted
  exact ⟨(replacing _ (by decide)).2.1 _ contentAccepted,
    (replacing _ (by decide)).2.2 balanced _ contentRefused (by decide) ⟨2, by decide⟩⟩

end Propositional
