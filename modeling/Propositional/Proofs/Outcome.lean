import Mathlib.Data.List.Forall2

/-!
# Outcomes

An outcome is a value or an error. The lemmas invert the ways of making one outcome from others: a
sequence of activities has a value exactly when each of them has one.
-/

set_option autoImplicit false

namespace Propositional

variable {ε α β γ : Type}

theorem bind_eq_ok_iff {outcome : Except ε α} {next : α → Except ε β} {result : β} :
    outcome >>= next = .ok result ↔ ∃ value, outcome = .ok value ∧ next value = .ok result := by
  cases outcome with
  | error cause =>
      constructor
      · intro run
        cases run
      · rintro ⟨value, success, _⟩
        cases success
  | ok value =>
      constructor
      · intro run
        exact ⟨value, rfl, run⟩
      · rintro ⟨other, success, run⟩
        cases success
        exact run

theorem bind_eq_ok {outcome : Except ε α} {next : α → Except ε β} {result : β}
    (run : outcome >>= next = .ok result) :
    ∃ value, outcome = .ok value ∧ next value = .ok result :=
  bind_eq_ok_iff.mp run

theorem mapError_eq_ok_iff {outcome : Except ε α} {image : ε → β} {value : α} :
    outcome.mapError image = .ok value ↔ outcome = .ok value := by
  cases outcome <;> simp [Except.mapError]

theorem bind_eq_error {outcome : Except ε α} {next : α → Except ε β} {cause : ε}
    (run : outcome >>= next = .error cause) :
    outcome = .error cause ∨ ∃ value, outcome = .ok value ∧ next value = .error cause := by
  cases outcome with
  | error other => exact .inl (congrArg _ (Except.error.inj run))
  | ok value => exact .inr ⟨value, rfl, run⟩

/-- An error that later activities cannot make is the error of the first one. -/
theorem bind_eq_error_iff {outcome : Except ε α} {next : α → Except ε β} {cause : ε}
    (never : ∀ value, next value ≠ .error cause) :
    outcome >>= next = .error cause ↔ outcome = .error cause := by
  cases outcome with
  | error other => exact ⟨fun run => congrArg _ (Except.error.inj run), fun run => by rw [run]; rfl⟩
  | ok value => exact ⟨fun run => absurd run (never value), fun run => by cases run⟩

section Images

variable {δ : Type} {outcome : Except ε α} {image : ε → δ}

theorem mapError_eq_error_iff (injective : Function.Injective image) {cause : ε} :
    outcome.mapError image = .error (image cause) ↔ outcome = .error cause := by
  cases outcome <;> simp [Except.mapError, injective.eq_iff]

theorem mapError_eq_error {cause : δ} (run : outcome.mapError image = .error cause) :
    ∃ other, outcome = .error other ∧ cause = image other := by
  cases outcome with
  | error other => exact ⟨other, rfl, (Except.error.inj run).symm⟩
  | ok value => cases run

theorem mapError_ne_error {cause : δ} (never : ∀ other, image other ≠ cause) :
    outcome.mapError image ≠ .error cause := by
  cases outcome <;> simp [Except.mapError, never]

end Images

section Determined

variable {left : Except ε α} {right : Except ε γ} {first : α} {second : γ}
  {hasFirst hasSecond : Prop}

theorem map_eq_ok_iff (leftIff : ∀ value, left = .ok value ↔ hasFirst ∧ value = first)
    (image : α → β) {result : β} :
    (do let value ← left; return image value) = .ok result ↔ hasFirst ∧ result = image first := by
  rw [bind_eq_ok_iff]
  constructor
  · rintro ⟨value, run, returned⟩
    obtain ⟨present, rfl⟩ := (leftIff value).mp run
    cases returned
    exact ⟨present, rfl⟩
  · rintro ⟨present, rfl⟩
    exact ⟨first, (leftIff first).mpr ⟨present, rfl⟩, rfl⟩

theorem map₂_eq_ok_iff (leftIff : ∀ value, left = .ok value ↔ hasFirst ∧ value = first)
    (rightIff : ∀ value, right = .ok value ↔ hasSecond ∧ value = second)
    (combine : α → γ → β) {result : β} :
    (do let before ← left; let after ← right; return combine before after) = .ok result ↔
      (hasFirst ∧ hasSecond) ∧ result = combine first second := by
  rw [bind_eq_ok_iff]
  constructor
  · rintro ⟨before, leftRun, run⟩
    obtain ⟨atLeft, rfl⟩ := (leftIff before).mp leftRun
    obtain ⟨atRight, combined⟩ := (map_eq_ok_iff rightIff (combine before)).mp run
    exact ⟨⟨atLeft, atRight⟩, combined⟩
  · rintro ⟨⟨atLeft, atRight⟩, combined⟩
    exact ⟨first, (leftIff first).mpr ⟨atLeft, rfl⟩,
      (map_eq_ok_iff rightIff (combine first)).mpr ⟨atRight, combined⟩⟩

end Determined

theorem mapM_eq_ok_iff {f : α → Except ε β} {items : List α} {values : List β} :
    items.mapM f = .ok values ↔
      List.Forall₂ (fun item value => f item = .ok value) items values := by
  induction items generalizing values with
  | nil =>
      rw [List.mapM_nil, List.forall₂_nil_left_iff]
      constructor
      · intro run
        cases run
        rfl
      · rintro rfl
        rfl
  | cons item rest ih =>
      rw [List.mapM_cons, List.forall₂_cons_left_iff]
      constructor
      · intro run
        obtain ⟨value, itemRun, run⟩ := bind_eq_ok run
        obtain ⟨later, restRun, returned⟩ := bind_eq_ok run
        cases returned
        exact ⟨value, later, itemRun, ih.mp restRun, rfl⟩
      · rintro ⟨value, later, itemRun, restRun, rfl⟩
        rw [itemRun, ih.mpr restRun]
        rfl

theorem mapM_eq_ok_map {f : α → Except ε β} {g : α → β} {items : List α}
    (each : ∀ item ∈ items, f item = .ok (g item)) : items.mapM f = .ok (items.map g) := by
  rw [mapM_eq_ok_iff, List.forall₂_map_right_iff, List.forall₂_same]
  exact each

theorem eq_map_of_mapM {f : α → Except ε β} {g : α → β} {items : List α} {values : List β}
    (each : ∀ item value, f item = .ok value → value = g item)
    (run : items.mapM f = .ok values) : values = items.map g := by
  rw [← List.forall₂_eq_eq_eq, List.forall₂_map_right_iff]
  exact (mapM_eq_ok_iff.mp run).flip.imp fun value item => each item value

theorem mapM_eq_findSome? {f : α → Except ε β} {fault : α → Option ε} {g : α → β} {items : List α}
    (each : ∀ item ∈ items, f item = (fault item).elim (.ok (g item)) .error) :
    items.mapM f = (items.findSome? fault).elim (.ok (items.map g)) .error := by
  induction items with
  | nil => rfl
  | cons item rest ih =>
      have later := ih fun other member => each other (List.mem_cons_of_mem _ member)
      rw [List.mapM_cons, each item (List.mem_cons_self ..), later, List.findSome?_cons]
      cases fault item with
      | some cause => rfl
      | none => cases rest.findSome? fault <;> rfl

/-- Activities that all fail alike, or none of them, do so together if there are any. -/
theorem mapM_eq_elim {f : α → Except ε β} {fault : Option ε} {g : α → β} {items : List α}
    (nonempty : items ≠ []) (each : ∀ item ∈ items, f item = fault.elim (.ok (g item)) .error) :
    items.mapM f = fault.elim (.ok (items.map g)) .error := by
  cases fault with
  | none => exact mapM_eq_ok_map each
  | some cause =>
      cases items with
      | nil => exact absurd rfl nonempty
      | cons item rest =>
          rw [List.mapM_cons, each item (List.mem_cons_self ..)]
          rfl

theorem length_of_mapM {f : α → Except ε β} {items : List α} {values : List β}
    (run : items.mapM f = .ok values) : values.length = items.length :=
  (mapM_eq_ok_iff.mp run).length_eq.symm

theorem getElem?_of_forall₂ {related : α → β → Prop} {items : List α} {values : List β}
    (pairs : List.Forall₂ related items values) {i : Nat} {item : α}
    (found : items[i]? = some item) : ∃ value, values[i]? = some value ∧ related item value := by
  induction pairs generalizing i with
  | nil => cases found
  | cons here _ ih =>
      cases i with
      | zero =>
          cases found
          exact ⟨_, rfl, here⟩
      | succ i => exact ih found

theorem getElem?_of_mapM {f : α → Except ε β} {items : List α} {values : List β}
    (run : items.mapM f = .ok values) {i : Nat} {item : α} (found : items[i]? = some item) :
    ∃ value, values[i]? = some value ∧ f item = .ok value :=
  getElem?_of_forall₂ (mapM_eq_ok_iff.mp run) found

theorem exists_error_of_mapM {f : α → Except ε β} {items : List α} {cause : ε}
    (run : items.mapM f = .error cause) : ∃ item ∈ items, f item = .error cause := by
  induction items with
  | nil => cases run
  | cons item rest ih =>
      rw [List.mapM_cons] at run
      rcases bind_eq_error run with here | ⟨value, _, run⟩
      · exact ⟨item, List.mem_cons_self .., here⟩
      · rcases bind_eq_error run with later | ⟨values, _, returned⟩
        · obtain ⟨other, member, there⟩ := ih later
          exact ⟨other, List.mem_cons_of_mem _ member, there⟩
        · cases returned

theorem exists_mapM {f : α → Except ε β} {items : List α}
    (each : ∀ item ∈ items, ∃ value, f item = .ok value) :
    ∃ values, items.mapM f = .ok values := by
  induction items with
  | nil => exact ⟨[], rfl⟩
  | cons item rest ih =>
      obtain ⟨value, here⟩ := each item (List.mem_cons_self ..)
      obtain ⟨values, later⟩ := ih fun other member => each other (List.mem_cons_of_mem _ member)
      refine ⟨value :: values, ?_⟩
      rw [List.mapM_cons, here, later]
      rfl

end Propositional
