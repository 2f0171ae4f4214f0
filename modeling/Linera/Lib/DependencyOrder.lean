import Mathlib
import Linera.Lib.Except

set_option autoImplicit false

/-! Lists in dependency order.

Each element of a list has a key and a list of the keys it depends on. The list is in
dependency order when every dependency of an element is the key of an element before it.
Such a list can be processed from left to right by a step that needs the dependencies of
each element to be processed already: the step never fails for a missing dependency. -/

namespace DependencyOrder

variable {α β κ : Type}

/-- Every dependency of an element is the key of an element before it. -/
inductive DependenciesFirst (key : α → κ) (deps : α → List κ) : List α → Prop
  | nil : DependenciesFirst key deps []
  | snoc {elements : List α} {element : α} (previous : DependenciesFirst key deps elements)
      (before : ∀ dependency ∈ deps element, dependency ∈ elements.map key) :
      DependenciesFirst key deps (elements ++ [element])

theorem DependenciesFirst.map {key : α → κ} {deps : α → List κ} {key' : β → κ}
    {deps' : β → List κ} (f : α → β) {elements : List α}
    (ordered : DependenciesFirst key deps elements)
    (sameKey : ∀ element ∈ elements, key' (f element) = key element)
    (sameDeps : ∀ element ∈ elements, deps' (f element) = deps element) :
    DependenciesFirst key' deps' (elements.map f) := by
  induction ordered with
  | nil => exact .nil
  | @snoc elements element previous before ih =>
      have earlier : ∀ other ∈ elements, other ∈ elements ++ [element] := fun other mem =>
        List.mem_append_left _ mem
      have last : element ∈ elements ++ [element] := List.mem_append_right _ List.mem_cons_self
      rw [List.map_append, List.map_singleton]
      refine .snoc (ih (fun other mem => sameKey other (earlier other mem))
        (fun other mem => sameDeps other (earlier other mem))) ?_
      intro dependency mem
      rw [sameDeps element last] at mem
      obtain ⟨other, otherMem, rfl⟩ := List.mem_map.mp (before dependency mem)
      rw [List.map_map]
      exact List.mem_map.mpr ⟨other, otherMem, sameKey other (earlier other otherMem)⟩

variable {σ ε : Type}

/-- A fold in dependency order never fails, when each step succeeds once the dependencies
of its element are present, makes its key present, and keeps what was present. -/
theorem DependenciesFirst.foldlM_ok {key : α → κ} {deps : α → List κ}
    (present : σ → κ → Prop) (step : σ → α → Except ε σ)
    (stepOk : ∀ state element, (∀ dependency ∈ deps element, present state dependency) →
      ∃ next, step state element = .ok next ∧ present next (key element) ∧
        ∀ other, present state other → present next other)
    {elements : List α} (ordered : DependenciesFirst key deps elements) (state : σ) :
    ∃ final, elements.foldlM step state = .ok final ∧
      ∀ element ∈ elements, present final (key element) := by
  induction ordered with
  | nil => exact ⟨state, rfl, by simp⟩
  | @snoc elements element previous before ih =>
      obtain ⟨middle, folded, added⟩ := ih
      have ready : ∀ dependency ∈ deps element, present middle dependency := by
        intro dependency mem
        obtain ⟨other, otherMem, rfl⟩ := List.mem_map.mp (before dependency mem)
        exact added other otherMem
      obtain ⟨final, stepped, keyPresent, kept⟩ := stepOk middle element ready
      refine ⟨final, ?_, ?_⟩
      · rw [List.foldlM_append, folded]
        simp [stepped]
      · intro other mem
        rcases List.mem_append.mp mem with old | new
        · exact kept _ (added other old)
        · rw [List.mem_singleton.mp new]
          exact keyPresent

end DependencyOrder
