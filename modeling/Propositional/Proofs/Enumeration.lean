import Mathlib.Algebra.BigOperators.Intervals
import Mathlib.Data.Finset.Card
import Propositional.Assignment

/-!
# Distinct names and the rows of a list of names

The bits of a row number are the truth values of the names, the first name at the highest bit and
false as a set bit. `Assignment.row_agreesOn_iff`: an assignment of distinct names agrees with
exactly one row. The names of a formula are made distinct by `List.eraseDups`, which keeps them in
the order in which they first appear.
-/

set_option autoImplicit false

namespace Propositional

/-! ## Distinct items -/

section Distinct

variable {α β : Type} [DecidableEq α] [DecidableEq β]

/-- To show a property of a list, the repetitions of its first item may be passed over. -/
@[elab_as_elim]
theorem eraseDups_induct {motive : List α → Prop} (nil : motive [])
    (cons : ∀ item rest, motive (rest.filter fun other => !other == item) → motive (item :: rest)) :
    ∀ items, motive items
  | [] => nil
  | item :: rest => cons item rest (eraseDups_induct nil cons _)
termination_by items => items.length
decreasing_by exact Nat.lt_succ_of_le (List.length_filter_le _ _)

theorem nodup_eraseDups (items : List α) : items.eraseDups.Nodup := by
  induction items using eraseDups_induct with
  | nil => exact List.nodup_nil
  | cons item rest ih =>
      rw [List.eraseDups_cons, List.nodup_cons]
      refine ⟨fun member => ?_, ih⟩
      simp at member

theorem eraseDups_of_nodup {items : List α} (nodup : items.Nodup) : items.eraseDups = items := by
  induction items with
  | nil => rfl
  | cons item rest ih =>
      obtain ⟨absent, restNodup⟩ := List.nodup_cons.mp nodup
      have kept : (rest.filter fun other => !other == item) = rest :=
        List.filter_eq_self.mpr fun other member => by
          simp [ne_of_mem_of_not_mem member absent]
      rw [List.eraseDups_cons, kept, ih restNodup]

theorem eraseDups_filter (p : α → Bool) (items : List α) :
    (items.filter p).eraseDups = items.eraseDups.filter p := by
  induction items using eraseDups_induct with
  | nil => rfl
  | cons item rest ih =>
      rw [List.eraseDups_cons, List.filter_cons, List.filter_cons, ← ih, List.filter_filter]
      by_cases chosen : p item = true
      · rw [if_pos chosen, if_pos chosen, List.eraseDups_cons, List.filter_filter]
        simp only [Bool.and_comm]
      · have passed : (fun other => p other && !other == item) = p := by
          funext other
          by_cases same : other = item
          · simp [same, chosen]
          · simp [same]
        rw [if_neg chosen, if_neg chosen, passed]

theorem length_eraseDups (items : List α) : items.eraseDups.length = items.toFinset.card := by
  have same : items.eraseDups.toFinset = items.toFinset := by
    ext item
    simp
  rw [← same, List.toFinset_card_of_nodup (nodup_eraseDups items)]

theorem length_eraseDups_cons (item : α) (rest : List α) :
    (item :: rest).eraseDups.length =
      if item ∈ rest then rest.eraseDups.length else rest.eraseDups.length + 1 := by
  rw [length_eraseDups, length_eraseDups, List.toFinset_cons]
  split
  · rename_i member
    rw [Finset.insert_eq_of_mem (List.mem_toFinset.mpr member)]
  · rename_i absent
    rw [Finset.card_insert_of_notMem (mt List.mem_toFinset.mp absent)]

theorem length_eraseDups_le (items : List α) : items.eraseDups.length ≤ items.length := by
  rw [length_eraseDups]
  exact List.toFinset_card_le items

theorem eraseDups_map {image : α → β} (injective : Function.Injective image) (items : List α) :
    (items.map image).eraseDups = items.eraseDups.map image := by
  induction items using eraseDups_induct with
  | nil => rfl
  | cons item rest ih =>
      have same : (fun other => !other == image item) ∘ image = fun other => !other == item := by
        funext other
        simp [injective.eq_iff, beq_eq_decide]
      rw [List.map_cons, List.eraseDups_cons, List.filter_map, same, ih, List.eraseDups_cons,
        List.map_cons]

theorem find?_eraseDups (p : α → Bool) (items : List α) :
    items.eraseDups.find? p = items.find? p := by
  induction items using eraseDups_induct with
  | nil => rfl
  | cons item rest ih =>
      rw [List.eraseDups_cons, List.find?_cons, List.find?_cons, ih, List.find?_filter]
      by_cases found : p item = true
      · rw [found]
      · have passed : (fun other => decide ((!other == item) = true ∧ p other = true)) = p := by
          funext other
          by_cases same : other = item
          · simp [same, found]
          · simp [same]
        rw [Bool.eq_false_iff.mpr found, passed]

theorem pairwise_idxOf_cons {item : α} {rest others : List α} (absent : item ∉ others)
    (ordered : others.Pairwise fun first second => rest.idxOf first < rest.idxOf second) :
    others.Pairwise fun first second =>
      (item :: rest).idxOf first < (item :: rest).idxOf second := by
  refine ordered.imp_of_mem fun firstMember secondMember before => ?_
  rw [List.idxOf_cons_ne rest (ne_of_mem_of_not_mem firstMember absent).symm,
    List.idxOf_cons_ne rest (ne_of_mem_of_not_mem secondMember absent).symm]
  exact Nat.succ_lt_succ before

/-- The distinct items among those chosen from a list stand in the order in which the list first
has them. -/
theorem pairwise_idxOf_eraseDups (chosen : α → Bool) (items : List α) :
    (items.filter chosen).eraseDups.Pairwise fun first second =>
      items.idxOf first < items.idxOf second := by
  induction items generalizing chosen with
  | nil => exact List.Pairwise.nil
  | cons item rest ih =>
      by_cases isChosen : chosen item = true
      · rw [List.filter_cons_of_pos isChosen, List.eraseDups_cons, List.filter_filter,
          List.pairwise_cons]
        have absent : item ∉ (rest.filter fun other =>
            (!other == item) && chosen other).eraseDups := by simp
        refine ⟨fun other member => ?_, pairwise_idxOf_cons absent (ih _)⟩
        rw [List.idxOf_cons_self,
          List.idxOf_cons_ne rest (ne_of_mem_of_not_mem member absent).symm]
        exact Nat.succ_pos _
      · rw [List.filter_cons_of_neg isChosen]
        have absent : item ∉ (rest.filter chosen).eraseDups := by simp [isChosen]
        exact pairwise_idxOf_cons absent (ih chosen)

end Distinct

/-! ## Rows -/

namespace Assignment

def Covers (σ : Assignment) (names : List String) : Prop :=
  ∀ name ∈ names, ∃ value, σ.get? name = some value

def AgreesOn (σ τ : Assignment) (names : List String) : Prop :=
  ∀ name ∈ names, σ.get? name = τ.get? name

/-- The truth value of every name; a name without a value counts as false. -/
def truth (σ : Assignment) (name : String) : Bool :=
  (σ.get? name).getD false

/-- The number of the row that gives the names their values under `σ`: a name that is false counts
by the power of two for its place from the end. -/
def rowNumber (σ : Assignment) (names : List String) : Nat :=
  ∑ c ∈ Finset.range names.length with names[c]?.bind σ.get? = some false,
    2 ^ (names.length - 1 - c)

variable {σ τ : Assignment} {names others front back : List String} {name : String} {r : Nat}

theorem Covers.mono (covered : σ.Covers names) (part : others ⊆ names) : σ.Covers others :=
  fun name member => covered name (part member)

theorem covers_append : σ.Covers (names ++ others) ↔ σ.Covers names ∧ σ.Covers others :=
  List.forall_mem_append

theorem Covers.get?_eq (covered : σ.Covers names) (member : name ∈ names) :
    σ.get? name = some (σ.truth name) := by
  obtain ⟨value, given⟩ := covered name member
  rw [truth, given]
  rfl

theorem AgreesOn.mono (agrees : σ.AgreesOn τ names) (part : others ⊆ names) :
    σ.AgreesOn τ others :=
  fun name member => agrees name (part member)

theorem truth_insert (σ : Assignment) (name : String) (value : Bool) :
    (σ.insert name value).truth = Function.update σ.truth name value := by
  funext key
  rw [truth, get?_insert]
  by_cases same : key = name
  · subst same
    simp
  · simp [same, truth]

theorem exists_assignment (truth : String → Bool) (names : List String) :
    ∃ σ : Assignment, ∀ name ∈ names, σ.get? name = some (truth name) := by
  induction names with
  | nil => exact ⟨empty, nofun⟩
  | cons first rest ih =>
      obtain ⟨σ, given⟩ := ih
      refine ⟨σ.insert first (truth first), fun name member => ?_⟩
      rw [get?_insert]
      by_cases same : name = first
      · rw [if_pos same, same]
      · rw [if_neg same]
        exact given name (List.mem_of_ne_of_mem same member)

theorem get?_insertRow_of_notMem (absent : name ∉ names) :
    (insertRow r names σ).get? name = σ.get? name := by
  induction names generalizing σ with
  | nil => rfl
  | cons first rest ih =>
      obtain ⟨other, absent⟩ := not_or.mp (mt List.mem_cons.mpr absent)
      rw [insertRow, ih absent, get?_insert, if_neg other]

theorem get?_row (last : name ∉ back) :
    (row (front ++ name :: back) r).get? name = some (!r.testBit back.length) := by
  rw [row]
  generalize empty = σ
  induction front generalizing σ with
  | nil => rw [List.nil_append, insertRow, get?_insertRow_of_notMem last, get?_insert, if_pos rfl]
  | cons first front ih => exact ih _

theorem get?_row_of_nodup (distinct : (front ++ name :: back).Nodup) :
    (row (front ++ name :: back) r).get? name = some (!r.testBit back.length) :=
  get?_row (List.nodup_cons.mp (List.nodup_append.mp distinct).2.1).1

theorem rowNumber_cons :
    σ.rowNumber (name :: back) =
      2 ^ back.length * (decide (σ.get? name = some false)).toNat + σ.rowNumber back := by
  have later (c : Nat) : back.length + 1 - 1 - (c + 1) = back.length - 1 - c := by omega
  simp only [rowNumber, Finset.sum_filter, List.length_cons, Finset.sum_range_succ',
    List.getElem?_cons_succ, List.getElem?_cons_zero, Option.bind_some, later]
  by_cases isFalse : σ.get? name = some false
  · simp [isFalse, Nat.add_comm]
  · simp [isFalse]

theorem rowNumber_lt : σ.rowNumber names < 2 ^ names.length := by
  induction names with
  | nil => exact Nat.one_pos
  | cons name rest ih =>
      have bit := (decide (σ.get? name = some false)).toNat_le
      have top := Nat.mul_le_mul_left (2 ^ rest.length) bit
      rw [rowNumber_cons, List.length_cons, Nat.pow_succ]
      omega

theorem testBit_rowNumber :
    (σ.rowNumber (front ++ name :: back)).testBit back.length =
      decide (σ.get? name = some false) := by
  induction front with
  | nil =>
      rw [List.nil_append, rowNumber_cons, Nat.testBit_two_pow_mul_add _ rowNumber_lt,
        if_neg (Nat.lt_irrefl _), Nat.sub_self]
      cases decide (σ.get? name = some false) <;> rfl
  | cons first front ih =>
      have inside : back.length < (front ++ name :: back).length := by
        rw [List.length_append, List.length_cons]
        omega
      rw [List.cons_append, rowNumber_cons, Nat.testBit_two_pow_mul_add _ rowNumber_lt,
        if_pos inside, ih]

theorem exists_split_at {i : Nat} (inside : i < names.length) :
    ∃ front name back, names = front ++ name :: back ∧ back.length = i := by
  have place : names.length - 1 - i < names.length := by omega
  refine ⟨names.take (names.length - 1 - i), names[names.length - 1 - i],
    names.drop (names.length - 1 - i + 1), ?_, ?_⟩
  · rw [List.getElem_cons_drop, List.take_append_drop]
  · rw [List.length_drop]
    omega

/-- Where `σ` gives distinct names a value, its row is the only one that agrees with it. -/
theorem row_agreesOn_iff (distinct : names.Nodup) (covered : σ.Covers names)
    (inside : r < 2 ^ names.length) :
    (row names r).AgreesOn σ names ↔ r = σ.rowNumber names := by
  constructor
  · intro agrees
    -- the bits below the number of names are their values, and no bit above it is set
    refine Nat.eq_of_testBit_eq fun i => ?_
    by_cases low : i < names.length
    · obtain ⟨front, name, back, rfl, rfl⟩ := exists_split_at low
      have value := agrees name (by simp)
      rw [get?_row_of_nodup distinct] at value
      rw [testBit_rowNumber, ← value]
      cases r.testBit back.length <;> rfl
    · have high : 2 ^ names.length ≤ 2 ^ i :=
        Nat.pow_le_pow_right Nat.two_pos (Nat.le_of_not_lt low)
      rw [Nat.testBit_lt_two_pow (Nat.lt_of_lt_of_le inside high),
        Nat.testBit_lt_two_pow (Nat.lt_of_lt_of_le rowNumber_lt high)]
  · rintro rfl name member
    obtain ⟨front, back, rfl⟩ := List.append_of_mem member
    obtain ⟨value, given⟩ := covered name member
    rw [get?_row_of_nodup distinct, testBit_rowNumber, given]
    cases value <;> rfl

theorem row_covers (distinct : names.Nodup) : (row names r).Covers names := by
  intro name member
  obtain ⟨front, back, rfl⟩ := List.append_of_mem member
  exact ⟨_, get?_row_of_nodup distinct⟩

end Assignment

end Propositional
