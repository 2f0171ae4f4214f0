import Mathlib

set_option autoImplicit false

/-! Computations in the exception monad.

The code under verification threads results through `Result`, modelled as `Except`.
These are the rules its proofs use: how a successful bind splits into its two halves,
and that a fold whose steps cannot fail is a plain fold. -/

namespace Except

variable {ε ε' α β : Type}

-- The monad operations on constructors, for `simp` to run a computation.

@[simp] theorem pure_eq_ok (value : α) : (pure value : Except ε α) = .ok value := rfl

@[simp] theorem throw_eq_error (fault : ε) : (throw fault : Except ε α) = .error fault := rfl

@[simp] theorem ok_bind (value : α) (f : α → Except ε β) : (Except.ok value >>= f) = f value :=
  rfl

@[simp] theorem error_bind (fault : ε) (f : α → Except ε β) :
    (Except.error fault >>= f) = Except.error fault :=
  rfl

@[simp] theorem mapError_ok (f : ε' → ε) (value : α) :
    (Except.ok value : Except ε' α).mapError f = .ok value :=
  rfl

@[simp] theorem mapError_error (f : ε' → ε) (fault : ε') :
    (Except.error fault : Except ε' α).mapError f = .error (f fault) :=
  rfl

@[simp] theorem map_of_ok (f : α → β) (value : α) :
    (Except.ok value : Except ε α).map f = .ok (f value) :=
  rfl

theorem bind_eq_ok_iff (x : Except ε α) (f : α → Except ε β) (result : β) :
    x >>= f = .ok result ↔ ∃ value, x = .ok value ∧ f value = .ok result := by
  cases x with
  | error fault =>
      constructor
      · intro failed
        cases failed
      · rintro ⟨_, failed, -⟩
        cases failed
  | ok value =>
      constructor
      · exact fun succeeded => ⟨value, rfl, succeeded⟩
      · rintro ⟨_, same, succeeded⟩
        cases same
        exact succeeded

theorem bind_pure_eq_ok_iff (x : Except ε α) (f : α → β) (result : β) :
    (x >>= fun value => pure (f value)) = .ok result ↔
      ∃ value, x = .ok value ∧ result = f value := by
  rw [bind_eq_ok_iff]
  exact exists_congr fun _ => and_congr_right fun _ =>
    ⟨fun same => (Except.ok.inj same).symm, fun same => same ▸ rfl⟩

theorem mapError_eq_ok_iff (f : ε' → ε) (x : Except ε' α) (value : α) :
    x.mapError f = .ok value ↔ x = .ok value := by
  cases x <;> simp

theorem foldlM_ok (step : β → α → β) (items : List α) (start : β) :
    items.foldlM (fun acc item => (Except.ok (step acc item) : Except ε β)) start =
      .ok (items.foldl step start) := by
  induction items generalizing start with
  | nil => rfl
  | cons item rest ih => exact ih (step start item)

theorem foldlM_eq_ok_foldl {f : β → α → Except ε β} {g : β → α → β} (items : List α) (start : β)
    (succeeds : ∀ item ∈ items, ∀ acc, f acc item = .ok (g acc item)) :
    items.foldlM f start = .ok (items.foldl g start) := by
  induction items generalizing start with
  | nil => rfl
  | cons item rest ih =>
      rw [List.foldlM_cons, succeeds item List.mem_cons_self]
      exact ih (g start item) (fun other mem => succeeds other (List.mem_cons_of_mem _ mem))

theorem foldlM_eq_ok_of_step {f g : β → α → Except ε β}
    (agree : ∀ acc item value, f acc item = .ok value → g acc item = .ok value) (items : List α)
    (start : β) {result : β} (folded : items.foldlM f start = .ok result) :
    items.foldlM g start = .ok result := by
  induction items generalizing start with
  | nil => exact folded
  | cons item rest ih =>
      rw [List.foldlM_cons] at folded ⊢
      obtain ⟨value, stepped, restFolded⟩ := (bind_eq_ok_iff _ _ _).mp folded
      rw [agree start item value stepped]
      exact ih value restFolded

theorem mapM_eq_ok_map {f : α → Except ε β} {g : α → β} (items : List α)
    (succeeds : ∀ item ∈ items, f item = .ok (g item)) : items.mapM f = .ok (items.map g) := by
  induction items with
  | nil => rfl
  | cons item rest ih =>
      rw [List.mapM_cons, succeeds item List.mem_cons_self,
        ih (fun other mem => succeeds other (List.mem_cons_of_mem _ mem))]
      rfl

end Except

theorem Option.mapM_eq_some_of_isSome {α β : Type} {f : α → Option β} (items : List α)
    (succeeds : ∀ item ∈ items, (f item).isSome) :
    ∃ results, items.mapM f = some results ∧ items.map f = results.map some := by
  induction items with
  | nil => exact ⟨[], rfl, rfl⟩
  | cons item rest ih =>
      obtain ⟨result, first⟩ := Option.isSome_iff_exists.mp (succeeds item List.mem_cons_self)
      obtain ⟨results, mapped, values⟩ :=
        ih (fun other mem => succeeds other (List.mem_cons_of_mem _ mem))
      refine ⟨result :: results, ?_, ?_⟩
      · rw [List.mapM_cons, first, mapped]
        rfl
      · rw [List.map_cons, List.map_cons, first, values]
