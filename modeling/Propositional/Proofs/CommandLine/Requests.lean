import Propositional.CommandLine.Settings
import Propositional.Proofs.Outcome

/-!
# Settings that a command line can ask for

`ofArguments_spelled`: a text that is attached to the expression switch is its value whatever the
text is, and every word behind the separator is a formula. The separator itself is the one
expression that cannot be asked for.
-/

set_option autoImplicit false

namespace Propositional.CommandLine

namespace Word

theorem ofSpelling?_eq_none {text : String} (attached : '=' ∈ text.toList) :
    Switch.ofSpelling? text = none := by
  have unattached : ∀ entry ∈ Switch.spellings, '=' ∉ entry.1.toList := by decide
  rw [Switch.ofSpelling?, List.lookup_eq_none_iff]
  intro entry member
  have other : text ≠ entry.1 := by
    rintro rfl
    exact unattached entry member attached
  simpa using other

/-- The word that attaches a text to the long spelling of the expression switch. -/
def attach (text : String) : String :=
  "--expression=" ++ text

theorem toList_attach (text : String) :
    (attach text).toList = "--expression".toList ++ '=' :: text.toList := by
  rw [attach, String.toList_append]
  rfl

theorem length_attach (text : String) : 12 < (attach text).toList.length := by
  rw [toList_attach, List.length_append, List.length_cons]
  exact Nat.lt_add_of_pos_right (Nat.succ_pos _)

theorem classify_attach (text : String) :
    classify (attach text) = .ok (.switch .expression false (some text)) := by
  have chars := toList_attach text
  have dash : (attach text).toList.head? = some '-' := by
    rw [chars]
    rfl
  have noSpelling : Switch.ofSpelling? (attach text) = none :=
    ofSpelling?_eq_none (by simp [chars])
  have long : (attach text).toList.length ≠ 1 := by
    have := length_attach text
    omega
  have parts : splitAtEquals (attach text).toList = ("--expression".toList, some text.toList) := by
    simp [chars, splitAtEquals]
  have spelling : Switch.ofSpelling? "--expression" = some .expression := by decide
  have twoDashes : isShort "--expression".toList = false := by decide
  simp only [classify, dash, noSpelling, long, parts, spelling, twoDashes, ne_eq,
    not_true_eq_false, if_false, String.ofList_toList]

theorem ofArguments_attach {rest : List String} {words : List Word}
    (behind : ofArguments rest = .ok words) (texts : List String) :
    ofArguments (texts.map attach ++ rest) =
      .ok (texts.map (fun text => .switch .expression false (some text)) ++ words) := by
  induction texts with
  | nil => exact behind
  | cons text later ih =>
      have noSeparator : attach text ≠ separatorText := by
        intro same
        have long := length_attach text
        rw [same] at long
        exact absurd long (by decide)
      rw [List.map_cons, List.cons_append, ofArguments, if_neg noSeparator, classify_attach, ih]
      rfl

def long : Switch → String
  | .help => "--help"
  | .expression => "--expression"
  | .verbose => "--verbose"
  | .debug => "--debug"
  | .exitOnError => "--exit-on-error"

theorem ofArguments_long {rest : List String} {words : List Word}
    (behind : ofArguments rest = .ok words) (flags : List Switch) :
    ofArguments (flags.map long ++ rest) =
      .ok (flags.map (fun s => .switch s false none) ++ words) := by
  induction flags with
  | nil => exact behind
  | cons s later ih =>
      have noSeparator : long s ≠ separatorText := by cases s <;> decide
      have known : classify (long s) = .ok (.switch s false none) := by cases s <;> rfl
      rw [List.map_cons, List.cons_append, ofArguments, if_neg noSeparator, known, ih]
      rfl

end Word

namespace Settings

theorem take_expression (phase : Phase) (given : Settings) (extras : List String) (text : String)
    (rest : List Word) :
    take phase given extras (.switch .expression false (some text) :: rest) =
      take phase.interrupt (given.addExpression text) extras rest := by
  rw [take]
  rfl

theorem take_expressions (given : Settings) {texts : List String} (rest : List Word)
    (usable : Word.separatorText ∉ texts) :
    take .awaited given []
        (texts.map (fun text => .switch .expression false (some text)) ++ rest) =
      take .awaited { given with expressions := given.expressions ++ texts.map some } [] rest := by
  induction texts generalizing given with
  | nil => simp
  | cons text later ih =>
      obtain ⟨other, usable⟩ := List.ne_and_not_mem_of_not_mem_cons usable
      rw [List.map_cons, List.cons_append, take_expression, Phase.interrupt, ih _ usable,
        addExpression, if_neg other.symm]
      simp

theorem take_plain (given : Settings) (texts : List String) :
    take .running given [] (texts.map .plain) =
      .ok { given with formulas := given.formulas ++ texts } := by
  induction texts generalizing given with
  | nil => simp [take]
  | cons text later ih =>
      rw [List.map_cons, take, if_neg (by decide), ih, addFormula]
      simp


theorem take_flags {flags : List Switch} (valueless : ∀ s ∈ flags, s.takesValue = false)
    {given after : Settings} (sets : given.setAll flags = .ok after) (rest : List Word) :
    take .awaited given [] (flags.map (fun s => .switch s false none) ++ rest) =
      take .awaited after [] rest := by
  induction flags generalizing given with
  | nil =>
      cases sets
      rfl
  | cons s later ih =>
      obtain ⟨here, valueless⟩ := List.forall_mem_cons.mp valueless
      have alone : Cluster.ofSwitch s false none = .ok ⟨[s], .nothing⟩ := by
        rw [Cluster.ofSwitch, Cluster.alone, here]
        rfl
      rw [setAll, List.foldlM_cons] at sets
      obtain ⟨next, set, sets⟩ := bind_eq_ok sets
      have only : given.setAll [s] = .ok next := by
        rw [setAll, List.foldlM_cons, set]
        rfl
      rw [List.map_cons, List.cons_append, take, alone]
      change (given.setAll [s] >>= fun after => _) = _
      rw [only]
      exact ih valueless sets

/-- Any expressions but the separator, any plain formulas and any switches without value can be
asked for together. -/
theorem ofArguments_spelled {expressions formulas : List String} {flags : List Switch}
    {given : Settings} (usable : Word.separatorText ∉ expressions)
    (valueless : ∀ s ∈ flags, s.takesValue = false)
    (sets : setAll { expressions := expressions.map some } flags = .ok given) :
    ofArguments (expressions.map Word.attach ++
        (flags.map Word.long ++ Word.separatorText :: formulas)) =
      .ok { given with formulas := given.formulas ++ formulas } := by
  have plain : Word.ofArguments (Word.separatorText :: formulas) =
      .ok (.separator :: formulas.map .plain) := by
    rw [Word.ofArguments, if_pos rfl]
  rw [ofArguments, Word.ofArguments_attach (Word.ofArguments_long plain flags)]
  dsimp only
  rw [take_expressions _ _ usable, List.nil_append, take_flags valueless sets, take,
    if_neg (by decide), take_plain]

end Settings

end Propositional.CommandLine
