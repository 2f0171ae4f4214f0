import Mathlib

set_option autoImplicit false

/-! Request handlers and lockstep simulation.

A handler answers one request from a state and moves to a new state; a run answers a list
of requests in turn. Two handlers simulate each other in lockstep under a relation between
their states when related states give the same answer to every request and stay related:
then every run from related states gives the same answers. This is how a store that
fronts another (a cache, an encoding of values) is shown to answer as the store it
fronts. -/

namespace Handler

variable {σ τ Q A : Type}

def run (handle : σ → Q → σ × A) : σ → List Q → σ × List A
  | state, [] => (state, [])
  | state, request :: rest =>
      let answered := handle state request
      let ran := run handle answered.1 rest
      (ran.1, answered.2 :: ran.2)

@[simp] theorem run_cons (handle : σ → Q → σ × A) (state : σ) (request : Q) (rest : List Q) :
    run handle state (request :: rest) =
      ((run handle (handle state request).1 rest).1,
        (handle state request).2 :: (run handle (handle state request).1 rest).2) := rfl

theorem run_invariant {handle : σ → Q → σ × A} (invariant : σ → Prop)
    (step : ∀ state request, invariant state → invariant (handle state request).1)
    {state : σ} (start : invariant state) (requests : List Q) :
    invariant (run handle state requests).1 := by
  induction requests generalizing state with
  | nil => exact start
  | cons request rest ih => exact ih (step state request start)

/-- Related states answer every request alike and stay related. -/
def Simulates (related : σ → τ → Prop) (concrete : σ → Q → σ × A)
    (abstract : τ → Q → τ × A) : Prop :=
  ∀ state reference request, related state reference →
    related (concrete state request).1 (abstract reference request).1 ∧
      (concrete state request).2 = (abstract reference request).2

/-- A lockstep simulation gives the same answers over every run and ends in related
states. -/
theorem Simulates.run {related : σ → τ → Prop} {concrete : σ → Q → σ × A}
    {abstract : τ → Q → τ × A} (simulates : Simulates related concrete abstract)
    {state : σ} {reference : τ} (start : related state reference) (requests : List Q) :
    related (Handler.run concrete state requests).1 (Handler.run abstract reference requests).1 ∧
      (Handler.run concrete state requests).2 = (Handler.run abstract reference requests).2 := by
  induction requests generalizing state reference with
  | nil => exact ⟨start, rfl⟩
  | cons request rest ih =>
      obtain ⟨next, answered⟩ := simulates state reference request start
      obtain ⟨final, answers⟩ := ih next
      rw [run_cons, run_cons]
      exact ⟨final, by rw [answered, answers]⟩

end Handler
