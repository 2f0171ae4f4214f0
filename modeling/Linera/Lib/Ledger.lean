import Mathlib

set_option autoImplicit false

/-! Conservation of a quantity along a log of flows.

A process holds some amount; each flow it logs brings some of the quantity in or takes
some out. A run conserves the quantity when what is held after, plus everything that went
out, is what was held before, plus everything that came in. Runs that conserve compose:
this is how a proof about each step of a process becomes a proof about the whole. -/

namespace Ledger

variable {F : Type} (incoming outgoing : F → Nat)

/-- What is held after and what went out make up what was held before and what came
in. -/
def Conserves (before after : Nat) (flows : List F) : Prop :=
  after + (flows.map outgoing).sum = before + (flows.map incoming).sum

theorem conserves_nil (held : Nat) : Conserves incoming outgoing held held [] := by
  simp [Conserves]

variable {incoming outgoing}

theorem Conserves.append {first middle last : Nat} {flows more : List F}
    (head : Conserves incoming outgoing first middle flows)
    (tail : Conserves incoming outgoing middle last more) :
    Conserves incoming outgoing first last (flows ++ more) := by
  unfold Conserves at *
  simp only [List.map_append, List.sum_append]
  omega

theorem conserves_of_paid {before after amount : Nat} {flow : F}
    (paid : after + amount = before) (logged : outgoing flow = amount) (none : incoming flow = 0) :
    Conserves incoming outgoing before after [flow] := by
  simp [Conserves, logged, none]
  omega

theorem conserves_of_received {before after amount : Nat} {flow : F}
    (received : after = before + amount) (logged : incoming flow = amount)
    (none : outgoing flow = 0) :
    Conserves incoming outgoing before after [flow] := by
  simp [Conserves, logged, none, received]

theorem conserves_map_of_paid {before after : Nat} (amounts : List Nat) {flow : Nat → F}
    (paid : after + amounts.sum = before) (logged : ∀ amount, outgoing (flow amount) = amount)
    (none : ∀ amount, incoming (flow amount) = 0) :
    Conserves incoming outgoing before after (amounts.map flow) := by
  simp [Conserves, Function.comp_def, logged, none, paid]

end Ledger
