import Mathlib.Algebra.Group.End
import Propositional.Proofs.Reading.Acceptance
import Propositional.Proofs.Substitution.Meaning

/-!
# Formulas and texts over other letters

A formula whose names are replaced has the same shape (`height_rename`, `ofTokens_rename`), and its
leaves and parts are the images of the old ones. If different names have different images, the rows
of a truth table mirror each other and the values stay (`mirrors_row`, `Formula.value_rename`). The
scan, the reader and the printer treat all letters alike: `ofText_relabel` for tokens and for
formulas, `rendering_rename` for what is printed.
-/

set_option autoImplicit false

namespace Propositional

/-! ## Renamed formulas -/

section Renaming

variable {image : String → String}

/-! ## The formula -/

namespace Formula

def rename (image : String → String) (f : Formula) : Formula :=
  f.subst fun name => .atom (image name)

variable {f : Formula} {levels : Nat}

theorem height_rename : (f.rename image).height = f.height := by
  induction f with
  | atom name => rfl
  | negation operand ih => exact congrArg (· + 1) ih
  | binary c left right leftIh rightIh =>
      exact congrArg (· + 1) (congrArg₂ max leftIh rightIh)
  | unspecified left right leftIh rightIh =>
      exact congrArg (· + 1) (congrArg₂ max leftIh rightIh)
  | hole => rfl

theorem concrete_rename : (f.rename image).Concrete ↔ f.Concrete := by
  induction f with
  | atom name => exact Iff.rfl
  | negation operand ih => exact ih
  | binary c left right leftIh rightIh => exact and_congr leftIh rightIh
  | unspecified left right _ _ => exact Iff.rfl
  | hole => exact Iff.rfl

theorem leaves_rename : (f.rename image).leaves = f.leaves.map image := by
  rw [rename, leaves_subst, List.map_eq_flatMap]
  rfl

theorem parts_rename : (f.rename image).parts = f.parts.map (rename image) := by
  induction f with
  | atom name => rfl
  | negation operand ih =>
      rw [parts, List.map_append, ← ih]
      rfl
  | binary c left right leftIh rightIh =>
      rw [parts, List.map_append, List.map_append, ← leftIh, ← rightIh]
      rfl
  | unspecified left right leftIh rightIh =>
      rw [parts, List.map_append, List.map_append, ← leftIh, ← rightIh]
      rfl
  | hole => rfl

end Formula

/-! ## Its words -/

def Word.rename (image : String → String) : Word → Word
  | atom name => atom (image name)
  | word => word

theorem Primary.need_subst {image : String → Primary} (single : ∀ name, (image name).need = 1)
    (p : Primary) : (p.subst image).need = p.need := by
  induction p with
  | atom name => exact single name
  | negation p ih => exact congrArg (1 + ·) ih
  | group e first steps =>
      rw [subst_group, need_group, need_group, Phrase.need, Phrase.need, Phrase.map_map,
        Phrase.map_congr first steps]

namespace Phrase

def rename (image : String → String) (e : Phrase Primary) : Phrase Primary :=
  e.map (Primary.subst fun name => .atom (image name))

theorem words_rename (e : Phrase Primary) :
    (e.rename image).words = e.words.map (Word.rename image) := by
  rw [rename, words_subst, List.map_eq_flatMap]
  refine List.flatMap_congr fun word _ => ?_
  cases word <;> rfl

theorem tree_rename (e : Phrase Primary) : (e.rename image).tree = e.tree.rename image :=
  e.tree_subst _

theorem need_rename (e : Phrase Primary) : (e.rename image).need = e.need := by
  have grouped := @Primary.need_subst (fun name => .atom (image name)) (fun _ => rfl) (.group e)
  rw [Primary.subst_group, Primary.need_group, Primary.need_group] at grouped
  exact Nat.add_left_cancel grouped

end Phrase

/-- Tokens that differ from accepted ones in the names alone are accepted, and the formula differs
in the names alone. -/
theorem ofTokens_rename {tokens others : List Token} {f : Formula}
    (words : (Token.beforeFinish others).map Token.word =
      ((Token.beforeFinish tokens).map Token.word).map (Word.rename image))
    (accepted : Formula.ofTokens (tokens.map some) = .ok f) :
    Formula.ofTokens (others.map some) = .ok (f.rename image) := by
  have low := height_le_of_ofTokens accepted
  obtain ⟨e, derives, covered, rfl⟩ := derives_of_ofTokens tokens f accepted
  have renamed : (e.rename image).Derives (Token.beforeFinish others) := by
    rw [Phrase.Derives, words, derives, Phrase.words_rename]
  rw [← Phrase.tree_rename]
  refine (ofTokens_of_derives others _ renamed).1 ?_ ?_
  · rw [Phrase.need_rename]
    exact covered
  · rw [Phrase.tree_rename, Formula.height_rename]
    exact low

/-! ## Its values -/

namespace Assignment

def Mirrors (image : String → String) (σ τ : Assignment) : Prop :=
  ∀ name, τ.get? (image name) = σ.get? name

variable {σ τ : Assignment}

theorem Mirrors.insert (injective : Function.Injective image) (mirrors : Mirrors image σ τ)
    (name : String) (value : Bool) :
    Mirrors image (σ.insert name value) (τ.insert (image name) value) := by
  intro key
  simp only [get?_insert, mirrors key, injective.eq_iff]

theorem Mirrors.insertRow (injective : Function.Injective image) (mirrors : Mirrors image σ τ)
    (names : List String) (r : Nat) :
    Mirrors image (insertRow r names σ) (insertRow r (names.map image) τ) := by
  induction names generalizing σ τ with
  | nil => exact mirrors
  | cons name rest ih =>
      rw [List.map_cons, Assignment.insertRow, Assignment.insertRow, List.length_map]
      exact ih (mirrors.insert injective name _)

theorem mirrors_row (injective : Function.Injective image) (names : List String) (r : Nat) :
    Mirrors image (row names r) (row (names.map image) r) :=
  Mirrors.insertRow injective (fun _ => rfl) names r

end Assignment

section Values

variable {f : Formula} {σ τ : Assignment} (mirrors : Assignment.Mirrors image σ τ)

include mirrors

theorem Formula.value_rename : (f.rename image).value τ.truth = f.value σ.truth := by
  have truths : (fun name => (atom (image name)).value τ.truth) = σ.truth := by
    funext name
    exact congrArg (·.getD false) (mirrors name)
  rw [rename, value_subst, truths]

end Values

end Renaming

/-! ## Permuted letters -/

/-! ## Permuting letters -/

def NamesAtom (c : Char) : Prop :=
  'A' ≤ c ∧ c ≤ 'Z' ∧ c ≠ 'V'

instance : DecidablePred NamesAtom :=
  fun c => inferInstanceAs (Decidable ('A' ≤ c ∧ c ≤ 'Z' ∧ c ≠ 'V'))

abbrev Letter : Type :=
  Subtype NamesAtom

def Plain (chars : List Char) : Prop :=
  ∀ c ∈ chars, ¬ NamesAtom c

instance decidablePlain (chars : List Char) : Decidable (Plain chars) :=
  List.decidableBAll _ chars

def imageChar (π : Equiv.Perm Letter) (c : Char) : Char :=
  Equiv.Perm.ofSubtype π c

/-- The text with every letter that names an atom replaced by its image. -/
def relabel (π : Equiv.Perm Letter) (text : String) : String :=
  text.map (imageChar π)

variable {π : Equiv.Perm Letter} {c : Char}

theorem imageChar_of_namesAtom (isLetter : NamesAtom c) : imageChar π c = π ⟨c, isLetter⟩ :=
  Equiv.Perm.ofSubtype_apply_of_mem π isLetter

theorem imageChar_of_not_namesAtom (noLetter : ¬ NamesAtom c) : imageChar π c = c :=
  Equiv.Perm.ofSubtype_apply_of_not_mem π noLetter

theorem namesAtom_imageChar (isLetter : NamesAtom c) : NamesAtom (imageChar π c) := by
  rw [imageChar_of_namesAtom isLetter]
  exact (π ⟨c, isLetter⟩).2

theorem imageChar_injective : Function.Injective (imageChar π) :=
  (Equiv.Perm.ofSubtype π).injective

theorem imageChar_inv (c : Char) : imageChar π⁻¹ (imageChar π c) = c := by
  rw [imageChar, imageChar, map_inv]
  exact (Equiv.Perm.ofSubtype π).symm_apply_apply c

theorem apply_imageChar {α : Type} {g : Char → α} {atLetters : α}
    (blind : ∀ c, NamesAtom c → g c = atLetters) (c : Char) : g (imageChar π c) = g c := by
  by_cases isLetter : NamesAtom c
  · rw [blind c isLetter, blind _ (namesAtom_imageChar isLetter)]
  · rw [imageChar_of_not_namesAtom isLetter]

theorem toList_relabel (text : String) : (relabel π text).toList = text.toList.map (imageChar π) :=
  String.toList_map

theorem length_relabel (text : String) : (relabel π text).length = text.length :=
  String.length_map

theorem relabel_inv (text : String) : relabel π⁻¹ (relabel π text) = text := by
  refine String.toList_inj.mp ?_
  rw [toList_relabel, toList_relabel, List.map_map]
  exact List.map_id'' imageChar_inv _

theorem relabel_injective : Function.Injective (relabel π) := by
  intro text other same
  rw [← relabel_inv text, same, relabel_inv]

theorem relabel_append (text more : String) :
    relabel π (text ++ more) = relabel π text ++ relabel π more := by
  refine String.toList_inj.mp ?_
  simp only [toList_relabel, String.toList_append, List.map_append]

theorem map_imageChar_of_plain {chars : List Char} (plain : Plain chars) :
    chars.map (imageChar π) = chars := by
  have same : chars.map (imageChar π) = chars.map id :=
    List.map_congr_left fun c member => imageChar_of_not_namesAtom (plain c member)
  rw [same, List.map_id]

theorem relabel_of_plain {text : String} (plain : Plain text.toList) :
    relabel π text = text := by
  refine String.toList_inj.mp ?_
  rw [toList_relabel, map_imageChar_of_plain plain]

theorem map_imageChar_ne_append {chars front : List Char} (plain : Plain front)
    (never : ∀ more, chars ≠ front ++ more) (more : List Char) :
    chars.map (imageChar π) ≠ front ++ more := by
  intro same
  obtain ⟨before, behind, rfl, beforeEq, _⟩ := List.map_eq_append_iff.mp same
  rw [← @map_imageChar_of_plain π front plain] at beforeEq
  exact never behind (by rw [List.map_injective_iff.mpr imageChar_injective beforeEq])

/-! ## The scan -/

namespace Token

/-- The token with the letters of its text replaced by their images. -/
def relabel (π : Equiv.Perm Letter) (t : Token) : Token :=
  { t with raw := Propositional.relabel π t.raw }

theorem kindOfChar?_imageChar (c : Char) : kindOfChar? (imageChar π c) = kindOfChar? c :=
  apply_imageChar (fun c isLetter => kindOfChar_letter c isLetter.1 isLetter.2.1 isLetter.2.2) c

theorem isSpacing_imageChar (c : Char) : isSpacing (imageChar π c) = isSpacing c :=
  apply_imageChar (fun c isLetter => isSpacing_letter c isLetter.1) c

theorem relabel_of_plain (kind : Kind) {raw : String} (plain : Plain raw.toList)
    (position : Int) : relabel π ⟨kind, raw, position⟩ = ⟨kind, raw, position⟩ := by
  rw [relabel, Propositional.relabel_of_plain plain]

theorem relabel_char (kind : Kind) (c : Char) (position : Int) :
    relabel π ⟨kind, String.singleton c, position⟩ =
      ⟨kind, String.singleton (imageChar π c), position⟩ := by
  have raw : Propositional.relabel π (String.singleton c) = String.singleton (imageChar π c) := by
    refine String.toList_inj.mp ?_
    rw [toList_relabel, String.toList_singleton, String.toList_singleton, List.map_singleton]
  rw [relabel, raw]

theorem followedBy_relabel (t : Token) (rest : Except LexError (List Token)) :
    followedBy (t.relabel π) (rest.map (List.map (relabel π))) =
      (followedBy t rest).map (List.map (relabel π)) := by
  cases rest <;> rfl

theorem noArrow_imageChar {chars : List Char} (noArrow : NoArrow chars) :
    NoArrow (chars.map (imageChar π)) :=
  ⟨@map_imageChar_ne_append π chars ['<', '-', '>'] (by decide) noArrow.1,
    @map_imageChar_ne_append π chars ['-', '>'] (by decide) noArrow.2⟩

/-- The image of a text is scanned into the images of its tokens, and refused for the same
character, which is no letter. -/
theorem scan_map_imageChar (position : Nat) (chars : List Char) :
    scan position (chars.map (imageChar π)) =
      (scan position chars).map (List.map (relabel π)) := by
  have dash : imageChar π '-' = '-' := imageChar_of_not_namesAtom (by decide)
  have left : imageChar π '<' = '<' := imageChar_of_not_namesAtom (by decide)
  have right : imageChar π '>' = '>' := imageChar_of_not_namesAtom (by decide)
  induction position, chars using scan_induct with
  | finish position =>
      have kept : (finish position).relabel π = finish position :=
        relabel_of_plain .finish (by decide) position
      rw [List.map_nil, scan_end]
      exact congrArg (fun t => Except.ok [t]) kept.symm
  | equivalence position rest ih =>
      have kept : relabel π ⟨.connective .equivalence, "<->", position⟩ = _ :=
        relabel_of_plain _ (by decide) _
      rw [List.map_cons, List.map_cons, List.map_cons, left, dash, right, scan_equivalence,
        scan_equivalence, ih, ← followedBy_relabel, kept]
  | conditional position rest ih =>
      have kept : relabel π ⟨.connective .conditional, "->", position⟩ = _ :=
        relabel_of_plain _ (by decide) _
      rw [List.map_cons, List.map_cons, dash, right, scan_conditional, scan_conditional, ih,
        ← followedBy_relabel, kept]
  | spacing position c rest spacing ih =>
      have imageSpacing : isSpacing (imageChar π c) = true := (isSpacing_imageChar c).trans spacing
      rw [List.map_cons, scan_spacing position imageSpacing, scan_spacing position spacing, ih]
  | single position c rest kind noArrow noSpacing kindEq ih =>
      have imageSpacing : ¬ isSpacing (imageChar π c) = true := isSpacing_imageChar c ▸ noSpacing
      have imageKind : kindOfChar? (imageChar π c) = some kind :=
        (kindOfChar?_imageChar c).trans kindEq
      rw [List.map_cons, scan_single position (noArrow_imageChar noArrow) imageSpacing imageKind,
        scan_single position noArrow noSpacing kindEq, ih, ← followedBy_relabel, relabel_char]
  | stray position c rest noArrow noSpacing noKind =>
      have noLetter : ¬ NamesAtom c := fun isLetter => by
        rw [kindOfChar_letter c isLetter.1 isLetter.2.1 isLetter.2.2] at noKind
        cases noKind
      have imageNoArrow := @noArrow_imageChar π _ noArrow
      rw [List.map_cons, imageChar_of_not_namesAtom noLetter] at imageNoArrow ⊢
      rw [scan_stray position imageNoArrow noSpacing noKind,
        scan_stray position noArrow noSpacing noKind]
      rfl

theorem ofText_relabel (source : String) :
    ofText (Propositional.relabel π source) = (ofText source).map (List.map (relabel π)) := by
  rw [ofText, ofText, toList_relabel, scan_map_imageChar]

theorem word_relabel (t : Token) :
    (t.relabel π).word = t.word.rename (Propositional.relabel π) := by
  unfold word relabel
  cases t.kind <;> rfl

theorem beforeFinish_relabel (tokens : List Token) :
    (beforeFinish (tokens.map (relabel π))).map word =
      ((beforeFinish tokens).map word).map (Word.rename (Propositional.relabel π)) := by
  have kept : beforeFinish (tokens.map (relabel π)) = (beforeFinish tokens).map (relabel π) :=
    List.takeWhile_map
  rw [kept, List.map_map, List.map_map]
  exact List.map_congr_left fun t _ => word_relabel t

end Token

/-! ## The formula and its text -/

open Formula

theorem Formula.ofText_relabel {source : String} {f : Formula}
    (accepted : Formula.ofText source = .ok f) :
    Formula.ofText (relabel π source) = .ok (f.rename (relabel π)) := by
  obtain ⟨tokens, scanned, read⟩ := ofText_eq_ok source f accepted
  have imageScanned : Token.ofText (relabel π source) = .ok (tokens.map (Token.relabel π)) := by
    rw [Token.ofText_relabel, scanned]
    rfl
  rw [ofText_of_scan _ _ imageScanned,
    ofTokens_rename (Token.beforeFinish_relabel tokens) read]
  rfl

theorem plain_symbol (c : Connective) : Plain c.symbol.toList := by
  cases c <;> decide

theorem enclose_relabel (outermost : Bool) (text : String) :
    enclose outermost (relabel π text) = relabel π (enclose outermost text) := by
  have opening : relabel π "(" = "(" := relabel_of_plain (by decide)
  have closing : relabel π ")" = ")" := relabel_of_plain (by decide)
  cases outermost with
  | true => rfl
  | false =>
      change "(" ++ relabel π text ++ ")" = relabel π ("(" ++ text ++ ")")
      rw [relabel_append, relabel_append, opening, closing]

theorem rendering_rename (f : Formula) (outermost : Bool) :
    (f.rename (relabel π)).rendering outermost = relabel π (f.rendering outermost) := by
  have blank : relabel π " " = " " := relabel_of_plain (by decide)
  induction f generalizing outermost with
  | atom name => rfl
  | negation operand ih =>
      have dash : relabel π "-" = "-" := relabel_of_plain (by decide)
      rw [rendering, relabel_append, dash, ← ih]
      rfl
  | binary c left right leftIh rightIh =>
      have symbol : relabel π c.symbol = c.symbol := relabel_of_plain (plain_symbol c)
      rw [rendering, ← enclose_relabel]
      simp only [relabel_append, blank, symbol, ← leftIh, ← rightIh]
      rfl
  | unspecified left right leftIh rightIh =>
      have symbol : relabel π "?" = "?" := relabel_of_plain (by decide)
      rw [rendering, ← enclose_relabel]
      simp only [relabel_append, blank, symbol, ← leftIh, ← rightIh]
      rfl
  | hole =>
      have empty : relabel π "" = "" := relabel_of_plain (by decide)
      exact empty.symm

end Propositional
