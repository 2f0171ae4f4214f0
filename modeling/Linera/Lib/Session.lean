import Mathlib

set_option autoImplicit false

/-! A client of a service that carries out each request atomically.

The service holds a state of type `σ` and applies a request of type `ρ` to it in one step; a
`Session` records the state and the requests carried out so far. A program that stops, by
an error of its own, a refused request or a crash of the process, has had the service carry
out a prefix of its requests: `CrashState` names the states that leaves. The lemmas cut the
crash states of consecutive requests into those of each part.

A `Program` is a client's code run against a session: it reads the state, sends requests
and returns a result or an error, and the session after it keeps what the service did up to
there. Its `run_` lemmas, one per operation, are what proofs about programs rewrite with. -/

/-- The state of a service and the requests it carried out, in order. -/
structure Session (σ ρ : Type) where
  state : σ
  sent : List ρ

namespace Session

variable {σ ρ : Type} (apply : σ → ρ → σ)

def send (session : Session σ ρ) (request : ρ) : Session σ ρ :=
  ⟨apply session.state request, session.sent ++ [request]⟩

@[simp] theorem send_state (session : Session σ ρ) (request : ρ) :
    (session.send apply request).state = apply session.state request := rfl

/-- `after` is `before` with `requests` carried out. -/
def Extends (before after : Session σ ρ) (requests : List ρ) : Prop :=
  after.sent = before.sent ++ requests ∧ after.state = requests.foldl apply before.state

theorem extends_refl (session : Session σ ρ) : Extends apply session session [] :=
  ⟨by simp, rfl⟩

theorem extends_send (session : Session σ ρ) (request : ρ) :
    Extends apply session (session.send apply request) [request] :=
  ⟨rfl, rfl⟩

theorem Extends.trans {first second third : Session σ ρ} {requests more : List ρ}
    (one : Extends apply first second requests) (two : Extends apply second third more) :
    Extends apply first third (requests ++ more) :=
  ⟨by rw [two.1, one.1, List.append_assoc], by rw [two.2, one.2, List.foldl_append]⟩

/-- `state` is what a crash can leave once the service has carried out the first requests
of `requests` from `start`. -/
def CrashState (start : σ) (requests : List ρ) (state : σ) : Prop :=
  ∃ count, state = (requests.take count).foldl apply start

theorem crashState_nil {start state : σ} :
    CrashState apply start ([] : List ρ) state ↔ state = start := by
  simp [CrashState]

theorem crashState_start (start : σ) (requests : List ρ) : CrashState apply start requests start :=
  ⟨0, by simp⟩

theorem crashState_all (start : σ) (requests : List ρ) :
    CrashState apply start requests (requests.foldl apply start) :=
  ⟨requests.length, by rw [List.take_length]⟩

theorem crashState_append {start state : σ} {first second : List ρ} :
    CrashState apply start (first ++ second) state ↔
      CrashState apply start first state ∨
        CrashState apply (first.foldl apply start) second state := by
  constructor
  · rintro ⟨count, rfl⟩
    by_cases within : count ≤ first.length
    · left
      exact ⟨count, by rw [List.take_append_of_le_length within]⟩
    · right
      refine ⟨count - first.length, ?_⟩
      rw [List.take_append, List.take_of_length_le (by omega), List.foldl_append]
  · rintro (⟨count, rfl⟩ | ⟨count, rfl⟩)
    · refine ⟨min count first.length, ?_⟩
      rw [List.take_append_of_le_length (Nat.min_le_right _ _), ← List.take_take,
        List.take_length]
    · refine ⟨first.length + count, ?_⟩
      rw [List.take_append, List.take_of_length_le (Nat.le_add_right first.length count),
        Nat.add_sub_cancel_left, List.foldl_append]

theorem crashState_cons {start state : σ} {request : ρ} {rest : List ρ} :
    CrashState apply start (request :: rest) state ↔
      state = start ∨ CrashState apply (apply start request) rest state := by
  rw [← List.singleton_append, crashState_append]
  constructor
  · rintro (⟨count, rfl⟩ | crash)
    · cases count with
      | zero => exact .inl rfl
      | succ count =>
          simp only [List.take_succ_cons, List.take_nil, List.foldl_cons, List.foldl_nil]
          exact .inr (crashState_start apply _ rest)
    · exact .inr crash
  · rintro (rfl | crash)
    · exact .inl (crashState_start apply _ _)
    · exact .inr crash

end Session

/-- Client code run against a session: its result, and the session after it. -/
def Program (σ ρ ε α : Type) : Type := Session σ ρ → Except ε α × Session σ ρ

namespace Program

variable {σ ρ ε α β : Type}

protected def pure (value : α) : Program σ ρ ε α := fun session => (.ok value, session)

protected def bind (first : Program σ ρ ε α) (next : α → Program σ ρ ε β) : Program σ ρ ε β :=
  fun session =>
    match first session with
    | (.ok value, after) => next value after
    | (.error error, after) => (.error error, after)

instance : Monad (Program σ ρ ε) where
  pure := Program.pure
  bind := Program.bind

def fail (error : ε) : Program σ ρ ε α := fun session => (.error error, session)

def read : Program σ ρ ε σ := fun session => (.ok session.state, session)

def send (apply : σ → ρ → σ) (request : ρ) : Program σ ρ ε Unit :=
  fun session => (.ok (), session.send apply request)

def ofExcept (result : Except ε α) : Program σ ρ ε α := fun session => (result, session)

@[simp] theorem run_pure (value : α) (session : Session σ ρ) :
    (pure value : Program σ ρ ε α) session = (.ok value, session) := rfl

@[simp] theorem run_bind (first : Program σ ρ ε α) (next : α → Program σ ρ ε β)
    (session : Session σ ρ) :
    (first >>= next) session =
      match first session with
      | (.ok value, after) => next value after
      | (.error error, after) => (.error error, after) := rfl

@[simp] theorem run_fail (error : ε) (session : Session σ ρ) :
    (fail error : Program σ ρ ε α) session = (.error error, session) := rfl

@[simp] theorem run_read (session : Session σ ρ) :
    (read : Program σ ρ ε σ) session = (.ok session.state, session) := rfl

@[simp] theorem run_send (apply : σ → ρ → σ) (request : ρ) (session : Session σ ρ) :
    (send apply request : Program σ ρ ε Unit) session = (.ok (), session.send apply request) := rfl

@[simp] theorem run_ofExcept (result : Except ε α) (session : Session σ ρ) :
    (ofExcept result : Program σ ρ ε α) session = (result, session) := rfl

end Program
