import Propositional.Formula
import Propositional.Proofs.Enumeration
import Propositional.Proofs.Grammar.Words
import Propositional.Proofs.Outcome

/-!
# Walks over formulas

A walk that gathers the atoms or the compound parts of a formula succeeds exactly on the concrete
formulas that are low enough, with what the tree alone determines (`atomsWithin_eq_ok_iff`,
`compoundsWithin_eq_ok_iff`). An evaluation succeeds on them as soon as their atoms have values
(`evaluateWithin_eq_ok_iff`), and depends on nothing else (`evaluateWithin_congr`).
-/

set_option autoImplicit false

namespace Propositional

namespace Formula

def parts : Formula → List Formula
  | atom _ => []
  | negation operand => operand.parts ++ [negation operand]
  | binary c left right => left.parts ++ right.parts ++ [binary c left right]
  | unspecified left right => left.parts ++ right.parts ++ [unspecified left right]
  | hole => []

theorem parts_ne_nil {f : Formula} (tall : 1 < f.height) : f.parts ≠ [] := by
  cases f with
  | atom name => exact absurd tall (Nat.lt_irrefl 1)
  | hole => exact absurd tall (Nat.lt_irrefl 1)
  | _ => simp [parts]

def nodes : Formula → List Formula
  | atom name => [atom name]
  | negation operand => negation operand :: operand.nodes
  | binary c left right => binary c left right :: (left.nodes ++ right.nodes)
  | unspecified left right => unspecified left right :: (left.nodes ++ right.nodes)
  | hole => [hole]

/-- A walk over a number of levels meets only nodes that it can enter. -/
def Walkable (f : Formula) (levels : Nat) : Prop :=
  f.Concrete ∧ f.height ≤ levels

variable {f left right : Formula} {levels : Nat}

theorem not_walkable_zero : ¬ f.Walkable 0 :=
  fun walkable => Nat.not_le.mpr f.height_pos walkable.2

theorem walkable_atom {name : String} : (atom name).Walkable (levels + 1) := by
  simp [Walkable, Concrete, height]

theorem walkable_negation : (negation f).Walkable (levels + 1) ↔ f.Walkable levels := by
  simp [Walkable, Concrete, height]

theorem walkable_binary {c : Connective} :
    (binary c left right).Walkable (levels + 1) ↔ left.Walkable levels ∧ right.Walkable levels := by
  rw [Walkable, height_binary_le]
  exact and_and_and_comm

theorem walkable_of_low {frames : Nat} (concrete : f.Concrete) (low : f.height ≤ 401)
    (few : frames ≤ callerLimit + 8) : f.Walkable (evaluationLevels frames) :=
  ⟨concrete, Nat.le_trans low (le_evaluationLevels few)⟩

theorem Walkable.mono {more : Nat} (walkable : f.Walkable levels) (le : levels ≤ more) :
    f.Walkable more :=
  ⟨walkable.1, Nat.le_trans walkable.2 le⟩

theorem Walkable.sides {c : Connective} (walkable : (binary c left right).Walkable levels) :
    left.Walkable levels ∧ right.Walkable levels :=
  walkable_binary.mp ⟨walkable.1, Nat.le_succ_of_le walkable.2⟩

/-! ## Gathering -/

theorem atomsWithin_eq_ok_iff (names : List String) :
    f.atomsWithin levels = .ok names ↔ f.Walkable levels ∧ names = f.leaves := by
  induction f generalizing levels names with
  | atom name =>
      cases levels <;> simp [atomsWithin, not_walkable_zero, walkable_atom, leaves, eq_comm]
  | negation operand ih =>
      cases levels with
      | zero => simp [atomsWithin, not_walkable_zero]
      | succ levels =>
          rw [walkable_negation]
          exact ih names
  | binary c left right leftIh rightIh =>
      cases levels with
      | zero => simp [atomsWithin, not_walkable_zero]
      | succ levels =>
          rw [walkable_binary]
          exact map₂_eq_ok_iff leftIh rightIh (· ++ ·)
  | unspecified left right _ _ => cases levels <;> simp [atomsWithin, Walkable, Concrete]
  | hole => cases levels <;> simp [atomsWithin, Walkable, Concrete]

theorem compoundsWithin_eq_ok_iff (compounds : List Formula) :
    f.compoundsWithin levels = .ok compounds ↔ f.Walkable levels ∧ compounds = f.parts := by
  induction f generalizing levels compounds with
  | atom name =>
      cases levels <;> simp [compoundsWithin, not_walkable_zero, walkable_atom, parts, eq_comm]
  | negation operand ih =>
      cases levels with
      | zero => simp [compoundsWithin, not_walkable_zero]
      | succ levels =>
          rw [walkable_negation]
          exact map_eq_ok_iff ih (· ++ [negation operand])
  | binary c left right leftIh rightIh =>
      cases levels with
      | zero => simp [compoundsWithin, not_walkable_zero]
      | succ levels =>
          rw [walkable_binary]
          exact map₂_eq_ok_iff leftIh rightIh (· ++ · ++ [binary c left right])
  | unspecified left right _ _ => cases levels <;> simp [compoundsWithin, Walkable, Concrete]
  | hole => cases levels <;> simp [compoundsWithin, Walkable, Concrete]

theorem atoms_eq_ok_iff {frames : Nat} (names : List String) :
    f.atoms frames = .ok names ↔
      f.Walkable (gatheringLevels frames) ∧ names = f.leaves.eraseDups :=
  map_eq_ok_iff atomsWithin_eq_ok_iff List.eraseDups

theorem atomsWithin_error (concrete : f.Concrete) {cause : WalkError}
    (failed : f.atomsWithin levels = .error cause) : cause = .tooDeep := by
  induction f generalizing levels with
  | atom name =>
      cases levels with
      | zero => exact (Except.error.inj failed).symm
      | succ levels => cases failed
  | negation operand ih =>
      cases levels with
      | zero => exact (Except.error.inj failed).symm
      | succ levels => exact ih concrete failed
  | binary c left right leftIh rightIh =>
      cases levels with
      | zero => exact (Except.error.inj failed).symm
      | succ levels =>
          rcases bind_eq_error failed with leftFailed | ⟨before, _, failed⟩
          · exact leftIh concrete.1 leftFailed
          · rcases bind_eq_error failed with rightFailed | ⟨after, _, returned⟩
            · exact rightIh concrete.2 rightFailed
            · cases returned
  | unspecified left right _ _ => exact concrete.elim
  | hole => exact concrete.elim

theorem of_mem_parts (P : Formula → Prop)
    (negation : ∀ operand, P (.negation operand) → P operand)
    (binary : ∀ c left right, P (.binary c left right) → P left ∧ P right)
    (unspecified : ∀ left right, P (.unspecified left right) → P left ∧ P right)
    {part : Formula} (whole : P f) (member : part ∈ f.parts) : P part := by
  induction f with
  | atom name => cases member
  | negation operand ih =>
      simp only [parts, List.mem_append, List.mem_singleton] at member
      rcases member with member | rfl
      · exact ih (negation operand whole) member
      · exact whole
  | binary c left right leftIh rightIh =>
      obtain ⟨atLeft, atRight⟩ := binary c left right whole
      simp only [parts, List.mem_append, List.mem_singleton] at member
      rcases member with (member | member) | rfl
      · exact leftIh atLeft member
      · exact rightIh atRight member
      · exact whole
  | unspecified left right leftIh rightIh =>
      obtain ⟨atLeft, atRight⟩ := unspecified left right whole
      simp only [parts, List.mem_append, List.mem_singleton] at member
      rcases member with (member | member) | rfl
      · exact leftIh atLeft member
      · exact rightIh atRight member
      · exact whole
  | hole => cases member

theorem leaves_of_mem_parts {part : Formula} (member : part ∈ f.parts) :
    part.leaves ⊆ f.leaves :=
  of_mem_parts (·.leaves ⊆ f.leaves) (fun _ inside => inside)
    (fun _ _ _ => List.append_subset.mp) (fun _ _ => List.append_subset.mp)
    (List.Subset.refl f.leaves) member

theorem walkable_of_mem_parts (walkable : f.Walkable levels) {part : Formula}
    (member : part ∈ f.parts) : part.Walkable levels := by
  refine of_mem_parts (·.Walkable levels) (fun operand inside => ?_) (fun _ _ _ => Walkable.sides)
    (fun left right inside => inside.1.elim) walkable member
  exact ⟨inside.1, Nat.le_trans (Nat.le_succ _) inside.2⟩

theorem getLast?_parts (compound : f.parts ≠ []) : f.parts.getLast? = some f := by
  cases f with
  | atom name => exact absurd rfl compound
  | negation operand => exact List.getLast?_concat
  | binary c left right => exact List.getLast?_concat
  | unspecified left right => exact List.getLast?_concat
  | hole => exact absurd rfl compound

/-! ## Evaluating -/

/-- The truth value of a concrete formula where every name is true or false. -/
def value (truth : String → Bool) : Formula → Bool
  | atom name => truth name
  | negation operand => !operand.value truth
  | binary c left right => c.apply (left.value truth) (right.value truth)
  | unspecified _ _ => false
  | hole => false

theorem value_congr {truth other : String → Bool}
    (agree : ∀ name ∈ f.leaves, truth name = other name) : f.value truth = f.value other := by
  induction f with
  | atom name => exact agree name (List.mem_singleton_self name)
  | negation operand ih => exact congrArg _ (ih agree)
  | binary c left right leftIh rightIh =>
      have leftEq := leftIh fun name member => agree name (List.mem_append_left _ member)
      have rightEq := rightIh fun name member => agree name (List.mem_append_right _ member)
      rw [value, value, leftEq, rightEq]
  | unspecified left right _ _ => rfl
  | hole => rfl

variable {σ τ : Assignment}

theorem evaluateWithin_congr (agrees : σ.AgreesOn τ f.leaves) :
    f.evaluateWithin σ levels = f.evaluateWithin τ levels := by
  induction f generalizing levels with
  | atom name =>
      have same := agrees name (List.mem_singleton_self name)
      cases levels with
      | zero => rfl
      | succ levels => simp only [evaluateWithin, same]
  | negation operand ih =>
      cases levels with
      | zero => rfl
      | succ levels => simp only [evaluateWithin, ih agrees]
  | binary c left right leftIh rightIh =>
      have leftAgrees := agrees.mono (List.subset_append_left left.leaves right.leaves)
      have rightAgrees := agrees.mono (List.subset_append_right left.leaves right.leaves)
      cases levels with
      | zero => rfl
      | succ levels => simp only [evaluateWithin, leftIh leftAgrees, rightIh rightAgrees]
  | unspecified left right _ _ => cases levels <;> rfl
  | hole => cases levels <;> rfl

theorem evaluateWithin_eq_ok_iff (result : Bool) :
    f.evaluateWithin σ levels = .ok result ↔
      (f.Walkable levels ∧ σ.Covers f.leaves) ∧ result = f.value σ.truth := by
  induction f generalizing levels result with
  | atom name =>
      cases levels with
      | zero => simp [evaluateWithin, not_walkable_zero]
      | succ levels =>
          cases given : σ.get? name <;>
            simp [evaluateWithin, walkable_atom, leaves, value, Assignment.Covers,
              Assignment.truth, given, eq_comm]
  | negation operand ih =>
      cases levels with
      | zero => simp [evaluateWithin, not_walkable_zero]
      | succ levels =>
          rw [walkable_negation]
          exact map_eq_ok_iff ih (!·)
  | binary c left right leftIh rightIh =>
      cases levels with
      | zero => simp [evaluateWithin, not_walkable_zero]
      | succ levels =>
          rw [walkable_binary, leaves, Assignment.covers_append, and_and_and_comm]
          exact map₂_eq_ok_iff leftIh rightIh c.apply
  | unspecified left right _ _ => cases levels <;> simp [evaluateWithin, Walkable, Concrete]
  | hole => cases levels <;> simp [evaluateWithin, Walkable, Concrete]

theorem evaluateWithin_error (concrete : f.Concrete) (covered : σ.Covers f.leaves)
    {cause : EvalError} (failed : f.evaluateWithin σ levels = .error cause) :
    cause = .walk .tooDeep := by
  induction f generalizing levels with
  | atom name =>
      cases levels with
      | zero => exact (Except.error.inj failed).symm
      | succ levels =>
          simp only [evaluateWithin, covered.get?_eq (List.mem_singleton_self name)] at failed
          cases failed
  | negation operand ih =>
      cases levels with
      | zero => exact (Except.error.inj failed).symm
      | succ levels =>
          rcases bind_eq_error failed with operandFailed | ⟨value, _, returned⟩
          · exact ih concrete covered operandFailed
          · cases returned
  | binary c left right leftIh rightIh =>
      obtain ⟨leftCovered, rightCovered⟩ := Assignment.covers_append.mp covered
      cases levels with
      | zero => exact (Except.error.inj failed).symm
      | succ levels =>
          rcases bind_eq_error failed with leftFailed | ⟨before, _, failed⟩
          · exact leftIh concrete.1 leftCovered leftFailed
          · rcases bind_eq_error failed with rightFailed | ⟨after, _, returned⟩
            · exact rightIh concrete.2 rightCovered rightFailed
            · cases returned
  | unspecified left right _ _ => exact concrete.elim
  | hole => exact concrete.elim

theorem evaluate_eq_value {frames : Nat} (walkable : f.Walkable (evaluationLevels frames))
    (covered : σ.Covers f.leaves) : f.evaluate frames σ = .ok (f.value σ.truth) :=
  (evaluateWithin_eq_ok_iff _).mpr ⟨⟨walkable, covered⟩, rfl⟩

end Formula

end Propositional
