import Mathlib.Logic.Basic

/-! # Outcomes

Sequences of steps that may fail, taken apart.
-/

namespace StubTree

variable {ε α β : Type}

/-- Where a sequence of steps has a result, its first step has one. -/
theorem exists_of_bind_eq_ok {first : Except ε α} {next : α → Except ε β} {b : β}
    (h : first >>= next = .ok b) : ∃ a, first = .ok a ∧ next a = .ok b := by
  cases first with
  | error => cases h
  | ok a => exact ⟨a, rfl, h⟩

/-- Where a sequence of steps fails, its first step does or what follows. -/
theorem eq_error_or_exists_of_bind {first : Except ε α} {next : α → Except ε β} {e : ε}
    (h : first >>= next = .error e) :
    first = .error e ∨ ∃ a, first = .ok a ∧ next a = .error e := by
  cases first with
  | error =>
      cases h
      exact Or.inl rfl
  | ok a => exact Or.inr ⟨a, rfl, h⟩

theorem bind_eq_ok_iff {first : Except ε α} {next : α → Except ε β} {b : β} :
    first >>= next = .ok b ↔ ∃ a, first = .ok a ∧ next a = .ok b := by
  refine ⟨exists_of_bind_eq_ok, ?_⟩
  rintro ⟨a, rfl, hnext⟩
  exact hnext

theorem exists_bind_eq_ok_iff {first : Except ε α} {next : α → Except ε β} :
    (∃ b, first >>= next = .ok b) ↔ ∃ a, first = .ok a ∧ ∃ b, next a = .ok b := by
  simp only [bind_eq_ok_iff, exists_comm, exists_and_left]

theorem exists_pure_eq_ok (a : α) : (∃ b, (pure a : Except ε α) = .ok b) ↔ True :=
  iff_true_intro ⟨a, rfl⟩

theorem exists_ite_eq_ok {p : Prop} [Decidable p] {e e' : Except ε α} :
    (∃ a, (if p then e else e') = .ok a) ↔ if p then ∃ a, e = .ok a else ∃ a, e' = .ok a := by
  split <;> rfl

theorem map_eq_ok_iff {e : Except ε α} {f : α → β} {b : β} :
    f <$> e = .ok b ↔ ∃ a, e = .ok a ∧ f a = b := by
  cases e with
  | error cause => exact ⟨fun h => (by cases h), fun ⟨_, h, _⟩ => (by cases h)⟩
  | ok a =>
      constructor
      · exact fun h => ⟨a, rfl, Except.ok.inj h⟩
      · rintro ⟨_, ⟨⟩, rfl⟩
        rfl

theorem map_eq_error_iff {e : Except ε α} {f : α → β} {cause : ε} :
    f <$> e = .error cause ↔ e = .error cause := by
  cases e with
  | error =>
      exact ⟨fun h => congrArg _ (Except.error.inj h), fun h => congrArg _ (Except.error.inj h)⟩
  | ok a => exact ⟨fun h => (by cases h), fun h => (by cases h)⟩

theorem exists_map_eq_ok {e : Except ε α} {f : α → β} :
    (∃ b, f <$> e = .ok b) ↔ ∃ a, e = .ok a := by
  cases e with
  | error cause => exact ⟨fun ⟨_, h⟩ => (by cases h), fun ⟨_, h⟩ => (by cases h)⟩
  | ok a => exact ⟨fun _ => ⟨a, rfl⟩, fun _ => ⟨f a, rfl⟩⟩

theorem exists_mapError_eq_ok {ε' : Type} {f : ε → ε'} {e : Except ε α} :
    (∃ a, e.mapError f = .ok a) ↔ ∃ a, e = .ok a := by
  cases e with
  | error cause => exact ⟨fun ⟨_, h⟩ => (by cases h), fun ⟨_, h⟩ => (by cases h)⟩
  | ok a => exact ⟨fun _ => ⟨a, rfl⟩, fun _ => ⟨a, rfl⟩⟩

/-- A row of steps has results where every step has one. -/
theorem exists_mapM_eq_ok_iff {f : α → Except ε β} {xs : List α} :
    (∃ ys, xs.mapM f = .ok ys) ↔ ∀ x ∈ xs, ∃ y, f x = .ok y := by
  induction xs with
  | nil => simp [exists_pure_eq_ok]
  | cons x rest ih =>
      rw [List.mapM_cons, exists_bind_eq_ok_iff, List.forall_mem_cons, ← ih]
      simp only [exists_bind_eq_ok_iff, exists_pure_eq_ok, and_true, exists_and_right]

/-- Every result of a row of steps is that of one of them. -/
theorem exists_of_mem_mapM_eq_ok {f : α → Except ε β} {xs : List α} {ys : List β}
    (h : xs.mapM f = .ok ys) {y : β} (hy : y ∈ ys) : ∃ x ∈ xs, f x = .ok y := by
  induction xs generalizing ys with
  | nil =>
      cases h
      cases hy
  | cons x rest ih =>
      rw [List.mapM_cons] at h
      obtain ⟨first, hfirst, h⟩ := exists_of_bind_eq_ok h
      obtain ⟨later, hlater, h⟩ := exists_of_bind_eq_ok h
      cases h
      rcases List.mem_cons.mp hy with rfl | hy
      · exact ⟨x, List.mem_cons_self, hfirst⟩
      · obtain ⟨x', hx', hf⟩ := ih hlater hy
        exact ⟨x', List.mem_cons_of_mem _ hx', hf⟩

/-- A row of steps has no results only where there are no steps. -/
theorem mapM_eq_ok_nil {f : α → Except ε β} {xs : List α} : xs.mapM f = .ok [] ↔ xs = [] := by
  cases xs with
  | nil => exact ⟨fun _ => rfl, fun _ => rfl⟩
  | cons x rest =>
      refine ⟨fun h => ?_, fun h => (by cases h)⟩
      rw [List.mapM_cons] at h
      obtain ⟨y, -, h⟩ := exists_of_bind_eq_ok h
      obtain ⟨ys, -, h⟩ := exists_of_bind_eq_ok h
      cases h

/-- A result can be told by its value alone, where causes of failure cannot be compared. -/
theorem eq_ok_of_toOption {e : Except ε α} {a : α} (h : e.toOption = some a) : e = .ok a := by
  cases e with
  | error => cases h
  | ok => exact congrArg _ (Option.some.inj h)

theorem exists_error_of_toOption {e : Except ε α} (h : e.toOption = none) :
    ∃ cause, e = .error cause := by
  cases e with
  | error cause => exact ⟨cause, rfl⟩
  | ok => cases h

theorem mapError_eq_ok_iff {ε' : Type} {f : ε → ε'} {e : Except ε α} {a : α} :
    e.mapError f = .ok a ↔ e = .ok a := by
  cases e with
  | error => exact ⟨fun h => (by cases h), fun h => (by cases h)⟩
  | ok => exact ⟨fun h => congrArg Except.ok (Except.ok.inj h), fun h => congrArg _ h⟩

theorem eq_ok_of_mapError {ε' : Type} {f : ε → ε'} {e : Except ε α} {a : α}
    (h : e.mapError f = .ok a) : e = .ok a := by
  cases e with
  | error => cases h
  | ok => exact congrArg Except.ok (Except.ok.inj h)

end StubTree
