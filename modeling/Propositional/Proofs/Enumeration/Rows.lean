import Mathlib.Data.Finset.Card
import Propositional.Proofs.Enumeration

/-!
# All rows of a list of names

`rows_cons`: the rows of a list of names begin with those in which the first name is true, and those
in which it is false follow; in either half the other names take on their own rows in order. From it
`rows_enumerate` concludes that every assignment of the names is met, each of them equally often,
and that rows of distinct names are in order, true before false.

A name may stand in the list more than once. Its last place decides its value then, and each of the
others doubles the rows without giving a new one.
-/

set_option autoImplicit false

namespace Propositional

namespace Assignment

variable {σ τ : Assignment} {names : List String} {name key : String} {value : Bool} {r s : Nat}

/-! ## Names and values determine an assignment -/

theorem lookup_cons (entry : String × Bool) (rest : List (String × Bool)) :
    lookup key (entry :: rest) = if entry.1 = key then some entry.2 else lookup key rest := by
  by_cases same : entry.1 = key <;> simp [lookup, same]

theorem lookup_eq_none_iff {entries : List (String × Bool)} :
    lookup key entries = none ↔ key ∉ entries.map Prod.fst := by
  simp only [lookup, Option.map_eq_none_iff, List.find?_eq_none, decide_eq_true_eq, List.mem_map,
    not_exists, not_and]

theorem get?_eq_none_iff : σ.get? key = none ↔ key ∉ σ.names :=
  lookup_eq_none_iff

theorem entries_eq_map (σ : Assignment) :
    σ.entries = σ.names.map fun name => (name, σ.truth name) := by
  obtain ⟨entries, nodup⟩ := σ
  change entries = (entries.map Prod.fst).map fun name => (name, (lookup name entries).getD false)
  induction entries with
  | nil => rfl
  | cons entry rest ih =>
      obtain ⟨absent, restNodup⟩ := List.nodup_cons.mp nodup
      have later : ∀ name ∈ rest.map Prod.fst, lookup name (entry :: rest) = lookup name rest := by
        intro name member
        rw [lookup_cons, if_neg (ne_of_mem_of_not_mem member absent).symm]
      rw [List.map_cons, List.map_cons, lookup_cons, if_pos rfl]
      refine congrArg (entry :: ·) ((ih restNodup).trans (List.map_congr_left fun name member => ?_))
      rw [later name member]

theorem eq_of_get? (sameNames : σ.names = τ.names)
    (sameValues : ∀ name, σ.get? name = τ.get? name) : σ = τ := by
  have sameTruth : σ.truth = τ.truth := funext fun name => by rw [truth, truth, sameValues]
  have sameEntries : σ.entries = τ.entries := by
    rw [entries_eq_map σ, entries_eq_map τ, sameNames, sameTruth]
  cases σ
  cases τ
  cases sameEntries
  rfl

/-! ## Assignments of lists of pairs -/

variable {pairs : List (String × Bool)} {pair : String × Bool}

theorem names_insert (σ : Assignment) (name : String) (value : Bool) :
    (σ.insert name value).names = if name ∈ σ.names then σ.names else σ.names ++ [name] :=
  names_put name value σ.entries

theorem names_foldl (σ : Assignment) (pairs : List (String × Bool)) :
    (pairs.foldl (fun σ pair => σ.insert pair.1 pair.2) σ).names =
      (σ.names ++ pairs.map Prod.fst).eraseDups := by
  induction pairs generalizing σ with
  | nil =>
      rw [List.map_nil, List.append_nil]
      exact (eraseDups_of_nodup σ.nodup).symm
  | cons pair rest ih =>
      rw [List.foldl_cons, ih, names_insert, List.map_cons]
      by_cases known : pair.1 ∈ σ.names
      · rw [if_pos known, List.eraseDups_append, List.eraseDups_append, List.cons_removeAll]
        simp [known]
      · rw [if_neg known, List.append_assoc]
        rfl

theorem names_ofList (pairs : List (String × Bool)) :
    (ofList pairs).names = (pairs.map Prod.fst).eraseDups :=
  names_foldl empty pairs

theorem get?_foldl (σ : Assignment) (pairs : List (String × Bool)) :
    (pairs.foldl (fun σ pair => σ.insert pair.1 pair.2) σ).get? key =
      ((ofList pairs).get? key).or (σ.get? key) := by
  induction pairs generalizing σ with
  | nil => rfl
  | cons pair rest ih =>
      have first : (ofList (pair :: rest)).get? key =
          ((ofList rest).get? key).or ((empty.insert pair.1 pair.2).get? key) := ih _
      rw [List.foldl_cons, ih, first, Option.or_assoc, get?_insert, get?_insert]
      congr 1
      by_cases same : key = pair.1
      · rw [if_pos same, if_pos same, Option.some_or]
      · rw [if_neg same, if_neg same]
        rfl

theorem get?_ofList_cons :
    (ofList (pair :: pairs)).get? key =
      ((ofList pairs).get? key).or (if key = pair.1 then some pair.2 else none) := by
  rw [ofList, List.foldl_cons, get?_foldl, get?_insert]
  rfl

theorem get?_ofList_entries (σ : Assignment) : (ofList σ.entries).get? key = σ.get? key := by
  obtain ⟨entries, nodup⟩ := σ
  change (ofList entries).get? key = lookup key entries
  induction entries with
  | nil => rfl
  | cons entry rest ih =>
      obtain ⟨absent, restNodup⟩ := List.nodup_cons.mp nodup
      rw [get?_ofList_cons, ih restNodup, lookup_cons]
      by_cases same : entry.1 = key
      · subst same
        rw [lookup_eq_none_iff.mpr absent, if_pos rfl]
        rfl
      · rw [if_neg same, if_neg (Ne.symm same), Option.or_none]

/-- The assignment with a name put in front of it. If it has the name already, its own value of the
name counts. -/
def extended (σ : Assignment) (name : String) (value : Bool) : Assignment :=
  ofList ((name, value) :: σ.entries)

theorem get?_extended :
    (σ.extended name value).get? key =
      (σ.get? key).or (if key = name then some value else none) := by
  rw [extended, get?_ofList_cons, get?_ofList_entries]

theorem ofList_cons (pair : String × Bool) (pairs : List (String × Bool)) :
    ofList (pair :: pairs) = (ofList pairs).extended pair.1 pair.2 := by
  refine eq_of_get? ?_ fun key => ?_
  · have inner : (ofList pairs).entries.map Prod.fst = (pairs.map Prod.fst).eraseDups :=
      names_ofList pairs
    rw [extended, names_ofList, names_ofList, List.map_cons, List.map_cons, inner,
      List.eraseDups_cons, List.eraseDups_cons, ← eraseDups_filter,
      eraseDups_of_nodup (nodup_eraseDups _)]
  · rw [get?_extended, get?_ofList_cons]

/-! ## The first name -/

def rowPairs (r : Nat) : List String → List (String × Bool)
  | [] => []
  | name :: rest => (name, !r.testBit rest.length) :: rowPairs r rest

theorem map_fst_rowPairs : (rowPairs r names).map Prod.fst = names := by
  induction names with
  | nil => rfl
  | cons name rest ih => rw [rowPairs, List.map_cons, ih]

theorem row_eq_ofList : row names r = ofList (rowPairs r names) := by
  rw [row, ofList]
  generalize empty = σ
  induction names generalizing σ with
  | nil => rfl
  | cons name rest ih => rw [insertRow, ih, rowPairs, List.foldl_cons]

theorem rowPairs_congr (same : ∀ i < names.length, r.testBit i = s.testBit i) :
    rowPairs r names = rowPairs s names := by
  induction names with
  | nil => rfl
  | cons name rest ih =>
      have top := same rest.length (Nat.lt_succ_self _)
      have below := ih fun i inside => same i (Nat.lt_succ_of_lt inside)
      rw [rowPairs, rowPairs, top, below]

theorem rowCount_mono {size larger : Nat} (le : size ≤ larger) : rowCount size ≤ rowCount larger :=
  Nat.pow_le_pow_right Nat.two_pos le

theorem rowCount_eq (size : Nat) : rowCount size = 2 ^ size :=
  rfl

theorem names_row : (row names r).names = names.eraseDups := by
  rw [row_eq_ofList, names_ofList, map_fst_rowPairs]

theorem row_cons : row (name :: names) r = (row names r).extended name (!r.testBit names.length) := by
  rw [row_eq_ofList, rowPairs, ofList_cons, ← row_eq_ofList]

theorem row_add : row names (2 ^ names.length + r) = row names r := by
  rw [row_eq_ofList, row_eq_ofList, rowPairs_congr fun i inside => ?_]
  exact Nat.testBit_two_pow_add_gt inside r

theorem rows_cons (name : String) (names : List String) :
    rows (name :: names) =
      (rows names).map (·.extended name true) ++ (rows names).map (·.extended name false) := by
  rw [rows, rows, rowCount_eq, rowCount_eq, List.length_cons, Nat.two_pow_succ, List.range_add,
    List.map_append, List.map_map, List.map_map, List.map_map]
  congr 1
  · refine List.map_congr_left fun r member => ?_
    have low := Nat.testBit_lt_two_pow (List.mem_range.mp member)
    rw [row_cons, low]
    rfl
  · refine List.map_congr_left fun r member => ?_
    have low := Nat.testBit_lt_two_pow (List.mem_range.mp member)
    rw [Function.comp_apply, row_cons, row_add, Nat.testBit_two_pow_add_eq, low]
    rfl

theorem names_of_mem_rows (member : σ ∈ rows names) : σ.names = names.eraseDups := by
  obtain ⟨r, _, rfl⟩ := List.mem_map.mp member
  exact names_row

theorem get?_eq_none_iff_of_mem_rows (member : σ ∈ rows names) :
    σ.get? name = none ↔ name ∉ names := by
  rw [get?_eq_none_iff, names_of_mem_rows member, List.mem_eraseDups]

theorem covers_iff_of_mem_rows (member : σ ∈ rows names) {others : List String} :
    σ.Covers others ↔ others ⊆ names := by
  refine forall₂_congr fun name _ => ?_
  rw [← Option.ne_none_iff_exists', ne_eq, get?_eq_none_iff_of_mem_rows member, not_not]

/-! ## How often an assignment is met -/

def Gives (σ : Assignment) (names : List String) (truth : String → Bool) : Prop :=
  ∀ name ∈ names, σ.get? name = some (truth name)

instance decidableGives (names : List String) (truth : String → Bool) :
    DecidablePred fun σ : Assignment => σ.Gives names truth :=
  fun σ => inferInstanceAs (Decidable (∀ name ∈ names, σ.get? name = some (truth name)))

variable {truth : String → Bool}

/-- A name in front matters only where the rest of the names has not got it. -/
theorem gives_extended (member : σ ∈ rows names) :
    (σ.extended name value).Gives (name :: names) truth ↔
      (name ∈ names ∨ value = truth name) ∧ σ.Gives names truth := by
  have covered : σ.Covers names := (covers_iff_of_mem_rows member).mpr (List.Subset.refl names)
  have rest : (∀ other ∈ names, (σ.extended name value).get? other = some (truth other)) ↔
      σ.Gives names truth := by
    refine forall₂_congr fun other inside => ?_
    obtain ⟨given, found⟩ := covered other inside
    rw [get?_extended, found, Option.some_or]
  rw [Gives, List.forall_mem_cons, rest, get?_extended, if_pos rfl]
  refine and_congr_left fun gives => ?_
  by_cases inside : name ∈ names
  · simp [inside, gives name inside]
  · have missing := (get?_eq_none_iff_of_mem_rows member).mpr inside
    simp [inside, missing]

theorem countP_extended (names : List String) (truth : String → Bool) :
    ((rows names).map (·.extended name value)).countP (fun σ => σ.Gives (name :: names) truth) =
      if name ∈ names ∨ value = truth name then (rows names).countP fun σ => σ.Gives names truth
      else 0 := by
  rw [List.countP_map]
  split
  · rename_i meets
    refine List.countP_congr fun σ member => ?_
    simp [gives_extended member, meets]
  · rename_i fails
    refine List.countP_eq_zero.mpr fun σ member => ?_
    simp [gives_extended member, fails]

theorem countP_rows (names : List String) (truth : String → Bool) :
    (rows names).countP (fun σ => σ.Gives names truth) =
      2 ^ (names.length - names.eraseDups.length) := by
  induction names with
  | nil => simp [rows, rowCount, Gives]
  | cons name rest ih =>
      have distinct := length_eraseDups_cons name rest
      have fewer := length_eraseDups_le rest
      rw [rows_cons, List.countP_append, countP_extended, countP_extended, ih, distinct,
        List.length_cons]
      by_cases repeated : name ∈ rest
      · have exponent : rest.length + 1 - rest.eraseDups.length =
            rest.length - rest.eraseDups.length + 1 := by omega
        rw [if_pos (.inl repeated), if_pos (.inl repeated), if_pos repeated, exponent]
        exact (Nat.two_pow_succ _).symm
      · rw [if_neg repeated, Nat.add_sub_add_right]
        cases truth name <;> simp [repeated]

/-! ## The order of the rows -/

def reading (σ : Assignment) (names : List String) : List Bool :=
  names.map σ.truth

def TrueFirst (first second : Bool) : Prop :=
  first = true ∧ second = false

theorem reading_extended (member : σ ∈ rows names) (fresh : name ∉ names) :
    (σ.extended name value).reading (name :: names) = value :: σ.reading names := by
  have missing := (get?_eq_none_iff_of_mem_rows member).mpr fresh
  have front : (σ.extended name value).truth name = value := by
    rw [truth, get?_extended, missing, if_pos rfl]
    rfl
  have rest : names.map (σ.extended name value).truth = names.map σ.truth := by
    refine List.map_congr_left fun other inside => ?_
    rw [truth, get?_extended, if_neg (ne_of_mem_of_not_mem inside fresh), Option.or_none]
    rfl
  rw [reading, List.map_cons, front, rest]
  rfl

/-- Of distinct names, two rows differ first where the earlier one is true and the later one false.
-/
theorem pairwise_rows (distinct : names.Nodup) :
    (rows names).Pairwise fun σ τ => List.Lex TrueFirst (σ.reading names) (τ.reading names) := by
  induction names with
  | nil => exact List.pairwise_singleton _ _
  | cons name rest ih =>
      obtain ⟨fresh, restDistinct⟩ := List.nodup_cons.mp distinct
      have half (value : Bool) : ((rows rest).map (·.extended name value)).Pairwise fun σ τ =>
          List.Lex TrueFirst (σ.reading (name :: rest)) (τ.reading (name :: rest)) := by
        refine List.pairwise_map.mpr ((ih restDistinct).imp_of_mem fun before after ordered => ?_)
        rw [reading_extended before fresh, reading_extended after fresh]
        exact .cons ordered
      rw [rows_cons]
      refine List.pairwise_append.mpr ⟨half true, half false, fun σ isTrue τ isFalse => ?_⟩
      obtain ⟨σ, before, rfl⟩ := List.mem_map.mp isTrue
      obtain ⟨τ, after, rfl⟩ := List.mem_map.mp isFalse
      rw [reading_extended before fresh, reading_extended after fresh]
      exact .rel ⟨rfl, rfl⟩

/-- If every bit of a row number is the same, so are all the values of distinct names. -/
theorem reading_row (distinct : names.Nodup) (same : ∀ i < names.length, r.testBit i = !value) :
    (row names r).reading names = List.replicate names.length value := by
  refine List.eq_replicate_iff.mpr ⟨List.length_map .., fun found member => ?_⟩
  obtain ⟨name, inside, rfl⟩ := List.mem_map.mp member
  obtain ⟨front, back, rfl⟩ := List.append_of_mem inside
  have low : back.length < (front ++ name :: back).length := by
    rw [List.length_append, List.length_cons]
    omega
  rw [truth, get?_row_of_nodup distinct, same _ low, Bool.not_not]
  rfl

theorem head?_rows (names : List String) : (rows names).head? = some (row names 0) := by
  rw [rows, rowCount_eq, List.head?_map, List.head?_range, if_neg (Nat.two_pow_pos _).ne']
  rfl

theorem rows_ne_nil (names : List String) : rows names ≠ [] := by
  intro empty
  have first := head?_rows names
  rw [empty] at first
  cases first

theorem getLast?_rows (names : List String) :
    (rows names).getLast? = some (row names (2 ^ names.length - 1)) := by
  rw [rows, rowCount_eq, List.getLast?_map, List.getLast?_range, if_neg (Nat.two_pow_pos _).ne']
  rfl

/-- A list of names has two rows for every place in it, and each row has the distinct names. Every
choice of truth values for them is met equally often, once if no name is repeated. Then the rows are
in lexicographic order, true before false, from all true to all false. A name that is put in front
is true in the rows of the first half and false in those of the second, where the others have not
got it already. -/
theorem rows_enumerate (names : List String) :
    (rows names).length = 2 ^ names.length ∧
    (∀ σ ∈ rows names, σ.names = names.eraseDups) ∧
    (∀ truth : String → Bool, (rows names).countP (fun σ => σ.Gives names truth) =
      2 ^ (names.length - names.eraseDups.length)) ∧
    (names.Nodup →
      ((rows names).Pairwise fun σ τ =>
        List.Lex TrueFirst (σ.reading names) (τ.reading names)) ∧
      (rows names).head?.map (·.reading names) = some (List.replicate names.length true) ∧
      (rows names).getLast?.map (·.reading names) = some (List.replicate names.length false)) ∧
    ∀ name, rows (name :: names) =
      (rows names).map (·.extended name true) ++ (rows names).map (·.extended name false) := by
  refine ⟨?_, fun σ => names_of_mem_rows, countP_rows names, fun distinct => ⟨?_, ?_, ?_⟩,
    fun name => rows_cons name names⟩
  · rw [rows, List.length_map, List.length_range, rowCount_eq]
  · exact pairwise_rows distinct
  · have first := @reading_row names true 0 distinct fun i _ => Nat.zero_testBit i
    rw [head?_rows, Option.map_some, first]
  · have last := @reading_row names false (2 ^ names.length - 1) distinct fun i inside => by
      rw [Nat.testBit_two_pow_sub_one, decide_eq_true inside]
      rfl
    rw [getLast?_rows, Option.map_some, last]

/-- In the rows of `A`, `B`, `A` the first name has no say, so each assignment is met twice; those
of `B`, `A` are in order. -/
theorem rows_enumerate_repeated :
    let names := ["A", "B", "A"]
    let distinct := ["B", "A"]
    (rows names).map (·.reading distinct) =
      [[true, true], [true, false], [false, true], [false, false],
        [true, true], [true, false], [false, true], [false, false]] ∧
    (∀ truth : String → Bool, (rows names).countP (fun σ => σ.Gives names truth) = 2) ∧
    distinct.Nodup ∧
    (rows distinct).map (·.reading distinct) =
      [[true, true], [true, false], [false, true], [false, false]] ∧
    (rows distinct).Pairwise fun σ τ =>
      List.Lex TrueFirst (σ.reading distinct) (τ.reading distinct) := by
  intro names distinct
  have nodup : distinct.Nodup := by decide
  have twice : 2 ^ (names.length - names.eraseDups.length) = 2 := by decide
  obtain ⟨_, _, counts, _, _⟩ := rows_enumerate names
  obtain ⟨_, _, _, ordered, _⟩ := rows_enumerate distinct
  refine ⟨by decide, fun truth => ?_, nodup, by decide, (ordered nodup).1⟩
  rw [counts truth, twice]

end Assignment

end Propositional
