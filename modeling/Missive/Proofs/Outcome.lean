/-!
# Outcomes of steps

Readers and writers are rows of steps, each of which may fail. What is known of a row that has
succeeded is known of each of its steps.
-/

namespace Missive

variable {ε α β : Type}

theorem bind_eq_ok_iff {first : Except ε α} {next : α → Except ε β} {result : β} :
    (first >>= next) = .ok result ↔ ∃ value, first = .ok value ∧ next value = .ok result := by
  cases first with
  | ok value => simp [bind, Except.bind]
  | error error => simp [bind, Except.bind]

theorem bind_unit_eq_ok_iff {first : Except ε Unit} {next : Unit → Except ε β} {result : β} :
    (first >>= next) = .ok result ↔ first = .ok () ∧ next () = .ok result := by
  rw [bind_eq_ok_iff]
  constructor
  · rintro ⟨_, known⟩
    exact known
  · intro known
    exact ⟨(), known⟩

theorem throw_bind_ne_ok {fault : ε} {later : α → Except ε β} {result : β} :
    (throw fault >>= later : Except ε β) ≠ .ok result := by
  nofun

/-- A check in front of further steps has not refused. -/
theorem guard_eq_ok_iff {refused : Prop} [Decidable refused] {fault : ε}
    {later : α → Except ε β} {next : Except ε β} {result : β} :
    (if refused then throw fault >>= later else next) = .ok result ↔
      ¬refused ∧ next = .ok result := by
  by_cases met : refused
  · simp [met, throw, throwThe, MonadExceptOf.throw, bind, Except.bind]
  · simp [met]

/-- A check after which nothing follows has not refused. -/
theorem guard_eq_ok_iff' {refused : Prop} [Decidable refused] {fault : ε} :
    (if refused then throw fault else pure () : Except ε Unit) = .ok () ↔ ¬refused := by
  by_cases met : refused
  · simp [met, throw, throwThe, MonadExceptOf.throw]
  · simp [met, pure, Except.pure]

theorem eq_ok_of_toOption {step : Except ε α} {result : α}
    (success : step.toOption = some result) : step = .ok result := by
  cases step with
  | ok value => rw [Option.some.inj success]
  | error error => cases success

theorem mapError_ok {fault : ε → β} {value : α} :
    (Except.ok value : Except ε α).mapError fault = .ok value := rfl

theorem mapError_error {fault : ε → β} {error : ε} :
    (Except.error error : Except ε α).mapError fault = .error (fault error) := rfl

theorem mapError_eq_ok_iff {fault : ε → β} {step : Except ε α} {result : α} :
    step.mapError fault = .ok result ↔ step = .ok result := by
  cases step with
  | ok value => rw [mapError_ok, Except.ok.injEq, Except.ok.injEq]
  | error error => simp [mapError_error]

theorem forM_eq_ok_iff {check : α → Except ε Unit} {items : List α} :
    items.forM check = .ok () ↔ ∀ item ∈ items, check item = .ok () := by
  rw [List.forM_eq_forM]
  induction items with
  | nil => simp [pure, Except.pure]
  | cons item items ih =>
      rw [List.forM_cons, bind_unit_eq_ok_iff, List.forall_mem_cons, ih]

theorem exists_of_option_mapM {step : α → Except ε β} {field : Option α} {result : Option β}
    (done : field.mapM step = .ok result) : ∀ item ∈ field, ∃ value, step item = .ok value := by
  intro item member
  cases member
  rcases bind_eq_ok_iff.mp done with ⟨value, known, _⟩
  exact ⟨value, known⟩

theorem option_mapM_eq (step : α → Except ε β) (item : α) :
    (some item).mapM step = (step item).map some := by
  have bound : (some item).mapM step = step item >>= fun value => pure (some value) := rfl
  rw [bound]
  cases step item <;> rfl

theorem option_mapM_some {step : α → Except ε β} {item : α} {value : β}
    (known : step item = .ok value) : (some item).mapM step = .ok (some value) := by
  rw [option_mapM_eq, known]
  rfl

theorem mapM_eq_ok_map {step : α → Except ε β} {result : α → β} {items : List α}
    (known : ∀ item ∈ items, step item = .ok (result item)) :
    items.mapM step = .ok (items.map result) := by
  induction items with
  | nil => rfl
  | cons item items ih =>
      rw [List.forall_mem_cons] at known
      rw [List.mapM_cons, known.1, ih known.2]
      rfl

theorem mapM_eq_ok_filterMap {step : α → Except ε β} {result : α → Option β} {items : List α}
    (known : ∀ item ∈ items, ∃ value, result item = some value ∧ step item = .ok value) :
    items.mapM step = .ok (items.filterMap result) := by
  induction items with
  | nil => rfl
  | cons item items ih =>
      rw [List.forall_mem_cons] at known
      rcases known with ⟨⟨value, found, done⟩, others⟩
      rw [List.mapM_cons, done, ih others, List.filterMap_cons_some found]
      rfl

end Missive
