import Mathlib.Data.List.Basic

/-! Steps that can fail. A sequence of steps fails with the first failure among them, and the steps behind it do not
count. -/
namespace AccessChain

section Steps
variable {Error Input Output : Type}

theorem bind_eq_ok_iff (first : Except Error Input) (next : Input → Except Error Output) (result : Output) :
    (first >>= next) = .ok result ↔ ∃ value, first = .ok value ∧ next value = .ok result := by
  cases first with
  | error error => simp [bind, Except.bind]
  | ok value => simp [bind, Except.bind]

theorem bind_eq_error_iff (first : Except Error Input) (next : Input → Except Error Output) (error : Error) :
    (first >>= next) = .error error ↔
      first = .error error ∨ ∃ value, first = .ok value ∧ next value = .error error := by
  cases first with
  | error error => simp [bind, Except.bind]
  | ok value => simp [bind, Except.bind]

variable (read : Input → Except Error Output)

theorem mapM_eq_error_iff (items : List Input) (error : Error) :
    items.mapM read = .error error ↔ ∃ front item behind, items = front ++ item :: behind ∧
      (∀ passed ∈ front, ∃ value, read passed = .ok value) ∧ read item = .error error := by
  induction items with
  | nil => simp [pure, Except.pure]
  | cons item items ih =>
    rw [List.mapM_cons, bind_eq_error_iff]
    simp only [bind_eq_error_iff, ih]
    constructor
    · rintro (here | ⟨value, here, ⟨front, later, behind, rfl, passed, failed⟩ | ⟨_, _, never⟩⟩)
      · exact ⟨[], item, items, rfl, nofun, here⟩
      · exact ⟨item :: front, later, behind, rfl, List.forall_mem_cons.mpr ⟨⟨value, here⟩, passed⟩, failed⟩
      · exact nomatch never
    · rintro ⟨front, later, behind, same, passed, failed⟩
      cases front with
      | nil =>
        obtain ⟨rfl, _⟩ := List.cons.inj same
        exact .inl failed
      | cons first front =>
        obtain ⟨rfl, rest⟩ := List.cons.inj same
        obtain ⟨⟨value, here⟩, others⟩ := List.forall_mem_cons.mp passed
        exact .inr ⟨value, here, .inl ⟨front, later, behind, rest, others, failed⟩⟩

theorem exists_mapM_eq_ok_iff (items : List Input) :
    (∃ values, items.mapM read = .ok values) ↔ ∀ item ∈ items, ∃ value, read item = .ok value := by
  induction items with
  | nil => exact iff_of_true ⟨[], rfl⟩ nofun
  | cons item items ih =>
    rw [List.forall_mem_cons, ← ih]
    simp only [List.mapM_cons, bind_eq_ok_iff]
    constructor
    · rintro ⟨_, value, here, others, later, _⟩
      exact ⟨⟨value, here⟩, others, later⟩
    · rintro ⟨⟨value, here⟩, others, later⟩
      exact ⟨value :: others, value, here, others, later, rfl⟩

theorem mem_of_mapM_eq_ok (items : List Input) (values : List Output) (found : items.mapM read = .ok values)
    (value : Output) : value ∈ values ↔ ∃ item ∈ items, read item = .ok value := by
  induction items generalizing values with
  | nil =>
    obtain rfl := Except.ok.inj found
    simp
  | cons item items ih =>
    rw [List.mapM_cons, bind_eq_ok_iff] at found
    obtain ⟨first, here, found⟩ := found
    obtain ⟨others, later, same⟩ := (bind_eq_ok_iff _ _ _).mp found
    obtain rfl := Except.ok.inj same
    simp [ih others later, here, eq_comm]

end Steps
end AccessChain
