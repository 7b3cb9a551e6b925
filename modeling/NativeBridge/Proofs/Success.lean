import Mathlib.Data.List.Forall2

/-! When a computation that may fail succeeds, and with which value. -/

namespace NativeBridge.Success

variable {ε ε' α β : Type}

/-- A sequence succeeds exactly when both of its parts do. -/
@[simp] theorem bind_ok_iff (x : Except ε α) (f : α → Except ε β) (value : β) :
    (x >>= f) = .ok value ↔ ∃ a, x = .ok a ∧ f a = .ok value := by
  cases x <;> simp [bind, Except.bind]

/-- A sequence fails in its first part, or in its second after the first has succeeded. -/
theorem bind_error_iff (x : Except ε α) (f : α → Except ε β) (e : ε) :
    (x >>= f) = .error e ↔ x = .error e ∨ ∃ a, x = .ok a ∧ f a = .error e := by
  cases x <;> simp [bind, Except.bind]

@[simp] theorem pure_ok_iff (a value : α) : (pure a : Except ε α) = .ok value ↔ a = value := by
  simp [pure, Except.pure]

@[simp] theorem throw_ne_ok (e : ε) (value : α) : ¬ (throw e : Except ε α) = .ok value := by
  simp [throw, throwThe, MonadExceptOf.throw]

@[simp] theorem ok_bind (a : α) (f : α → Except ε β) : ((.ok a : Except ε α) >>= f) = f a := rfl

@[simp] theorem error_bind (e : ε) (f : α → Except ε β) :
    ((.error e : Except ε α) >>= f) = .error e := rfl

@[simp] theorem throw_bind (e : ε) (f : α → Except ε β) :
    ((throw e : Except ε α) >>= f) = throw e := rfl

@[simp] theorem throw_map (e : ε) (f : α → β) : f <$> (throw e : Except ε α) = throw e := rfl

@[simp] theorem map_ok_iff (f : α → β) (x : Except ε α) (value : β) :
    x.map f = .ok value ↔ ∃ a, x = .ok a ∧ f a = value := by
  cases x <;> simp [Except.map]

@[simp] theorem mapError_ok_iff (f : ε → ε') (x : Except ε α) (value : α) :
    x.mapError f = .ok value ↔ x = .ok value := by
  cases x <;> simp [Except.mapError]

theorem forM_ok_iff (f : α → Except ε Unit) (xs : List α) :
    xs.forM f = .ok () ↔ ∀ x ∈ xs, f x = .ok () := by
  induction xs with
  | nil => simp [List.forM]
  | cons x xs ih =>
    change (f x >>= fun _ => xs.forM f) = .ok () ↔ _
    rw [bind_ok_iff]
    simp only [ih, List.mem_cons, forall_eq_or_imp]
    constructor
    · rintro ⟨⟨⟩, first, rest⟩
      exact ⟨first, rest⟩
    · rintro ⟨first, rest⟩
      exact ⟨(), first, rest⟩

/-- A successful traversal is pointwise. -/
theorem mapM_ok_iff (f : α → Except ε β) (xs : List α) (ys : List β) :
    xs.mapM f = .ok ys ↔ List.Forall₂ (fun x y => f x = .ok y) xs ys := by
  induction xs generalizing ys with
  | nil => cases ys <;> simp
  | cons x xs ih =>
    rw [List.mapM_cons]
    simp only [bind_ok_iff, pure_ok_iff, ih]
    constructor
    · rintro ⟨y, first, rest, others, rfl⟩
      exact .cons first others
    · intro related
      cases related with
      | cons first others => exact ⟨_, first, _, others, rfl⟩

theorem exists_of_forall₂ {R : α → β → Prop} {xs : List α} {ys : List β}
    (related : List.Forall₂ R xs ys) {y : β} (member : y ∈ ys) : ∃ x ∈ xs, R x y := by
  induction related with
  | nil => cases member
  | cons first _ ih =>
    rcases List.mem_cons.mp member with rfl | member
    · exact ⟨_, List.mem_cons_self, first⟩
    · obtain ⟨x, later, read⟩ := ih member
      exact ⟨x, List.mem_cons_of_mem _ later, read⟩

theorem exists_of_mem_mapM {f : α → Except ε β} {xs : List α} {ys : List β}
    (succeeded : xs.mapM f = .ok ys) {y : β} (member : y ∈ ys) : ∃ x ∈ xs, f x = .ok y :=
  exists_of_forall₂ ((mapM_ok_iff f xs ys).mp succeeded) member

end NativeBridge.Success
