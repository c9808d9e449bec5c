import Propositional.Proofs.Walks

/-!
# The order of the compound parts

`compounds_in_order`: the compound parts of a formula are its compound nodes, each as often as it
occurs. By `blocked_parts` every part closes a block of their list: right in front of it stand the
parts that it is made of, those of its left side before those of its right side. So the sides of a
part are found by counting backwards from it.
-/

set_option autoImplicit false

namespace Propositional

namespace Formula

def IsCompound : Formula → Prop
  | atom _ => False
  | negation _ => True
  | binary _ _ _ => True
  | unspecified _ _ => True
  | hole => False

instance decidableIsCompound : DecidablePred IsCompound
  | atom _ => .isFalse id
  | negation _ => .isTrue trivial
  | binary _ _ _ => .isTrue trivial
  | unspecified _ _ => .isTrue trivial
  | hole => .isFalse id

def compoundCount (f : Formula) : Nat :=
  f.nodes.countP fun node => IsCompound node

variable {f e : Formula}

/-! ## Which parts there are -/

theorem parts_perm_nodes (f : Formula) :
    f.parts.Perm (f.nodes.filter fun node => IsCompound node) := by
  have root {sides below : List Formula} {node : Formula} (compound : node.IsCompound)
      (same : sides.Perm (below.filter fun node => IsCompound node)) :
      (sides ++ [node]).Perm ((node :: below).filter fun node => IsCompound node) := by
    rw [List.filter_cons, if_pos (decide_eq_true compound)]
    exact (List.perm_append_singleton node sides).trans (same.cons node)
  induction f with
  | atom name => exact .nil
  | negation operand ih => exact root trivial ih
  | binary c left right leftIh rightIh =>
      refine root trivial ?_
      rw [List.filter_append]
      exact leftIh.append rightIh
  | unspecified left right leftIh rightIh =>
      refine root trivial ?_
      rw [List.filter_append]
      exact leftIh.append rightIh
  | hole => exact .nil

theorem count_parts (compound : e.IsCompound) : f.parts.count e = f.nodes.count e := by
  rw [(parts_perm_nodes f).count_eq]
  exact List.count_filter (decide_eq_true compound)

theorem isCompound_of_mem_parts (member : e ∈ f.parts) : e.IsCompound := by
  rw [(parts_perm_nodes f).mem_iff, List.mem_filter] at member
  exact of_decide_eq_true member.2

theorem length_parts : f.parts.length = f.compoundCount := by
  rw [(parts_perm_nodes f).length_eq, compoundCount, List.countP_eq_length_filter]

theorem exists_parts_eq_concat (compound : f.IsCompound) : ∃ sides, f.parts = sides ++ [f] := by
  cases f with
  | atom name => exact compound.elim
  | negation operand => exact ⟨_, rfl⟩
  | binary c left right => exact ⟨_, rfl⟩
  | unspecified left right => exact ⟨_, rfl⟩
  | hole => exact compound.elim

theorem isCompound_of_count_pos (present : 0 < f.compoundCount) : f.IsCompound := by
  rw [← length_parts] at present
  cases f with
  | atom name => exact absurd present (Nat.lt_irrefl _)
  | hole => exact absurd present (Nat.lt_irrefl _)
  | _ => trivial

/-! ## Where they stand -/

/-- Every formula of the list stands right behind its sides' parts. -/
def Blocked (columns : List Formula) : Prop :=
  ∀ j e, columns[j]? = some e → e.parts <:+ columns.take (j + 1)

theorem Blocked.append {columns later : List Formula} (blocked : Blocked columns)
    (reaching : ∀ j e, later[j]? = some e → e.parts <:+ columns ++ later.take (j + 1)) :
    Blocked (columns ++ later) := by
  intro j e found
  rw [List.getElem?_append] at found
  split at found
  · rename_i inside
    rw [List.take_append_of_le_length inside]
    exact blocked j e found
  · rename_i behind
    have beyond : columns.length ≤ j + 1 := Nat.le_succ_of_le (Nat.le_of_not_lt behind)
    rw [List.take_append, List.take_of_length_le beyond, Nat.succ_sub (Nat.le_of_not_lt behind)]
    exact reaching _ e found

theorem blocked_parts (f : Formula) : Blocked f.parts := by
  have root {sides : List Formula} {root : Formula} (whole : root.parts = sides ++ [root]) :
      ∀ j e, [root][j]? = some e → e.parts <:+ sides ++ [root].take (j + 1) := by
    intro j e found
    cases j with
    | zero =>
        cases found
        rw [whole]
        exact List.suffix_rfl
    | succ j => cases found
  have sides {left right : Formula} (leftBlocked : Blocked left.parts)
      (rightBlocked : Blocked right.parts) : Blocked (left.parts ++ right.parts) :=
    leftBlocked.append fun j e found =>
      (rightBlocked j e found).trans (List.suffix_append _ _)
  induction f with
  | atom name => exact nofun
  | negation operand ih => exact ih.append (root rfl)
  | binary c left right leftIh rightIh => exact (sides leftIh rightIh).append (root rfl)
  | unspecified left right leftIh rightIh => exact (sides leftIh rightIh).append (root rfl)
  | hole => exact nofun

theorem getElem?_of_suffix {columns block later : List Formula} {j : Nat}
    (inside : j < columns.length) (suffix : block ++ [e] ++ later <:+ columns.take (j + 1)) :
    later.length ≤ j ∧ columns[j - later.length]? = some e := by
  obtain ⟨front, whole⟩ := suffix
  have length := congrArg List.length whole
  simp only [List.length_append, List.length_singleton, List.length_take] at length
  have place : j - later.length = front.length + block.length := by omega
  refine ⟨by omega, ?_⟩
  rw [← List.getElem?_take_of_lt (by omega : j - later.length < j + 1), ← whole, place]
  simp

variable {left right : Formula} {j : Nat}

theorem operand_at (found : f.parts[j]? = some (negation e)) (compound : e.IsCompound) :
    0 < j ∧ f.parts[j - 1]? = some e := by
  have block := blocked_parts f j _ found
  obtain ⟨sides, whole⟩ := exists_parts_eq_concat compound
  rw [parts, whole] at block
  exact getElem?_of_suffix (List.getElem?_eq_some_iff.mp found).1 block

theorem right_at {c : Connective} (found : f.parts[j]? = some (binary c left right))
    (compound : right.IsCompound) : 0 < j ∧ f.parts[j - 1]? = some right := by
  have block := blocked_parts f j _ found
  obtain ⟨sides, whole⟩ := exists_parts_eq_concat compound
  rw [parts, whole, ← List.append_assoc] at block
  exact getElem?_of_suffix (List.getElem?_eq_some_iff.mp found).1 block

theorem left_at {c : Connective} (found : f.parts[j]? = some (binary c left right))
    (compound : left.IsCompound) :
    right.compoundCount < j ∧ f.parts[j - 1 - right.compoundCount]? = some left := by
  have block := blocked_parts f j _ found
  obtain ⟨sides, whole⟩ := exists_parts_eq_concat compound
  rw [parts, whole, List.append_assoc] at block
  have place := getElem?_of_suffix (List.getElem?_eq_some_iff.mp found).1 block
  rw [List.length_append, length_parts, List.length_singleton] at place
  rw [Nat.sub_sub, Nat.add_comm 1]
  exact place

/-- The columns of a formula are its compound nodes, each as often as it occurs, and the formula is
the last of them. The operand of a negation, or the right side of a connective, stands in the column
before it, and the left side in front of as many more columns as the right side has compound
nodes. -/
theorem compounds_in_order (f : Formula) (frames : Nat) (few : frames ≤ callerLimit)
    (concrete : f.Concrete) (low : f.height ≤ 401) :
    ∃ columns, f.compounds frames = .ok columns ∧
      (∀ e, e.IsCompound → columns.count e = f.nodes.count e) ∧
      (∀ e ∈ columns, e.IsCompound) ∧
      (columns ≠ [] → columns.getLast? = some f) ∧
      ∀ j,
        (∀ operand, columns[j]? = some (.negation operand) → operand.IsCompound →
          0 < j ∧ columns[j - 1]? = some operand) ∧
        ∀ c left right, columns[j]? = some (.binary c left right) →
          (0 < right.compoundCount → 0 < j ∧ columns[j - 1]? = some right) ∧
          (left.IsCompound → right.compoundCount < j ∧
            columns[j - 1 - right.compoundCount]? = some left) := by
  have walkable : f.Walkable (gatheringLevels frames) :=
    walkable_of_low concrete low (Nat.add_le_add few (by decide))
  refine ⟨f.parts, (compoundsWithin_eq_ok_iff _).mpr ⟨walkable, rfl⟩, fun e => count_parts,
    fun e => isCompound_of_mem_parts, getLast?_parts, fun j => ⟨fun operand => operand_at, ?_⟩⟩
  intro c left right found
  exact ⟨fun present => right_at found (isCompound_of_count_pos present), left_at found⟩

/-- In `(A ^ -B) v -(A ^ -B)` the conjunction occurs twice. The left side of the whole formula is
found in front of the three columns of its right side, and the other conjunction right before its
negation. -/
theorem compounds_in_order_repeated :
    let both := binary .conjunction (atom "A") (negation (atom "B"))
    let f := binary .disjunction both (negation both)
    f.Concrete ∧ f.height ≤ 401 ∧
      ∃ columns, f.compounds 1 = .ok columns ∧ columns.count both = 2 ∧ columns[5]? = some f ∧
        columns[5 - 1]? = some (negation both) ∧ columns[5 - 1 - 3]? = some both ∧
        columns[4 - 1]? = some both := by
  intro both f
  have concrete : f.Concrete := by simp [f, both, Concrete]
  have low : f.height ≤ 401 := by decide
  obtain ⟨columns, gathered, counts, _, _, places⟩ := compounds_in_order f 1 (by decide) concrete low
  have listed : f.compounds 1 =
      .ok [negation (atom "B"), both, negation (atom "B"), both, negation both, f] := by decide
  cases gathered.symm.trans listed
  obtain ⟨rightPlace, leftPlace⟩ := (places 5).2 .disjunction both (negation both) rfl
  refine ⟨concrete, low, _, listed, ?_, rfl, (rightPlace (by decide)).2, (leftPlace trivial).2,
    ((places 4).1 both rfl trivial).2⟩
  rw [counts both trivial]
  decide

end Formula

end Propositional
