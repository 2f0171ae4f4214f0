import Mathlib
import Linera.Execution.System

set_option autoImplicit false

/-! The application stack of a user action (`linera-execution/src/runtime.rs` and
`execution.rs`).

`run_user_action` starts the runtime with the stack `[application_id]` and runs the
application's code. Every `try_call_application` of user code pushes the callee, runs it,
and pops it after a `?`: a callee that fails leaves itself on the stack. The runtime
actor answers a failed request by failing the whole application with that error, so
the error reaches `run_user_action` with a longer stack. A `UserError` is then ignored,
and the assertion that the stack is `[application_id]` panics.

User code is any program of runtime requests: requests that leave the stack alone
and may fail (state locks, storage reads and writes), and calls to other applications,
each with the program that the callee runs. It ends with `Ok` or `Err(message)`. -/

namespace Linera.Execution

abbrev ApplicationId := Nat

/-- The errors of `ExecutionError` that the application stack sees. -/
inductive ExecutionError where
  /-- `SystemError(UnknownApplicationId)` from `describe_application`. -/
  | unknownApplicationId (id : ApplicationId)
  /-- `UserError`: an application returned `Err(message)`. -/
  | userError (message : String)
  /-- Any other error of a runtime request. -/
  | requestFailed
  /-- `SystemError`: a system operation failed. -/
  | systemError (error : SystemExecutionError)
  /-- `PricingError`: fees could not be priced or paid. -/
  | pricingError (error : PricingError)
  deriving DecidableEq, Repr

/-- The code an application runs, as the requests it makes of the runtime. -/
inductive Program where
  /-- The application returns `Ok` or `Err(message)`. -/
  | finish (result : Except String Unit)
  /-- A request that does not touch the application stack, with its outcome. -/
  | request (outcome : Except ExecutionError Unit) (next : Program)
  /-- `try_call_application`, with the program the callee runs. -/
  | callApplication (callee : ApplicationId) (calleeProgram : Program) (next : Program)
  deriving Repr

/-- Runs a program with the application stack `applications`, which is shared with the
runtime: the stack it leaves, and the result of the application. A failed request ends the
application with the request's error, as the runtime actor returns it. -/
def runProgram (known : ApplicationId → Bool) :
    Program → List ApplicationId → List ApplicationId × Except ExecutionError Unit
  | .finish (.ok ()), applications => (applications, .ok ())
  | .finish (.error message), applications => (applications, .error (.userError message))
  | .request (.ok ()) next, applications => runProgram known next applications
  | .request (.error error) _, applications => (applications, .error error)
  | .callApplication callee calleeProgram next, applications =>
      -- `load_application` fails before anything is pushed.
      if !known callee then (applications, .error (.unknownApplicationId callee))
      else
        match runProgram known calleeProgram (applications ++ [callee]) with
        -- The `?` returns before `pop`.
        | (applications, .error error) => (applications, .error error)
        | (applications, .ok ()) => runProgram known next applications.dropLast

/-- How `run_user_action` ends. -/
inductive ActionOutcome where
  | ok
  | error (error : ExecutionError)
  /-- An assertion failed. -/
  | panic
  deriving DecidableEq, Repr

/-- `run_user_action`; `updateLimits` is the outcome of `tracker.update_limits`. -/
def runUserAction (known : ApplicationId → Bool) (applicationId : ApplicationId)
    (program : Program) (updateLimits : Except ExecutionError Unit) : ActionOutcome :=
  if !known applicationId then .error (.unknownApplicationId applicationId)
  else
    let (applications, callResult) := runProgram known program [applicationId]
    -- TODO(#989) in the source: user errors are ignored.
    let result : Except ExecutionError Unit := match callResult with
      | .error (.userError _) => .ok ()
      | other => other
    match result, updateLimits with
    | .error error, _ => .error error
    | .ok (), .error error => .error error
    | .ok (), .ok () =>
        -- assert_eq!(applications.len(), 1); assert_eq!(applications[0].id, application_id)
        if applications = [applicationId] then .ok else .panic

section Stack

variable (known : ApplicationId → Bool)

theorem runProgram_callApplication_of_unknown {callee : ApplicationId} (calleeProgram next : Program)
    (applications : List ApplicationId) (unknown : known callee = false) :
    runProgram known (.callApplication callee calleeProgram next) applications =
      (applications, .error (.unknownApplicationId callee)) := by
  simp [runProgram, unknown]

theorem runProgram_callApplication_of_known {callee : ApplicationId} (calleeProgram next : Program)
    (applications : List ApplicationId) (found : known callee = true) :
    runProgram known (.callApplication callee calleeProgram next) applications =
      match runProgram known calleeProgram (applications ++ [callee]) with
      | (applications, .error error) => (applications, .error error)
      | (applications, .ok ()) => runProgram known next applications.dropLast := by
  simp [runProgram, found]

theorem runProgram_ok_stack (program : Program) (applications after : List ApplicationId)
    (success : runProgram known program applications = (after, .ok ())) :
    after = applications := by
  induction program generalizing applications after with
  | finish result =>
      rcases result with message | ⟨⟩ <;> simp [runProgram] at success
      exact success.symm
  | request outcome next ih =>
      rcases outcome with error | ⟨⟩
      · simp [runProgram] at success
      · exact ih _ _ success
  | callApplication callee calleeProgram next ihCallee ihNext =>
      cases found : known callee
      · simp [runProgram_callApplication_of_unknown known _ _ _ found] at success
      · rw [runProgram_callApplication_of_known known _ _ _ found] at success
        rcases called : runProgram known calleeProgram (applications ++ [callee]) with
          ⟨returned, error | ⟨⟩⟩
        · simp [called] at success
        · -- The callee popped what it pushed, so `pop` removes the callee again.
          have balanced := ihCallee _ _ called
          rw [called, balanced] at success
          dsimp only at success
          rw [List.dropLast_concat] at success
          exact ihNext _ _ success

/-- A program that fails leaves the stack it found, with the callees that were running
when the error happened on top. -/
theorem runProgram_error_stack (program : Program) (applications after : List ApplicationId)
    (error : ExecutionError) (failure : runProgram known program applications = (after, .error error)) :
    applications <+: after := by
  induction program generalizing applications after error with
  | finish result =>
      rcases result with message | ⟨⟩ <;> simp [runProgram] at failure
      rw [failure.1]
  | request outcome next ih =>
      rcases outcome with failed | ⟨⟩
      · simp only [runProgram, Prod.mk.injEq] at failure
        rw [failure.1]
      · exact ih _ _ _ failure
  | callApplication callee calleeProgram next ihCallee ihNext =>
      cases found : known callee
      · simp only [runProgram_callApplication_of_unknown known _ _ _ found, Prod.mk.injEq] at failure
        rw [failure.1]
      · rw [runProgram_callApplication_of_known known _ _ _ found] at failure
        rcases called : runProgram known calleeProgram (applications ++ [callee]) with
          ⟨returned, failed | ⟨⟩⟩
        · simp only [called, Prod.mk.injEq] at failure
          rw [← failure.1]
          exact (List.prefix_append applications [callee]).trans (ihCallee _ _ _ called)
        · have balanced := runProgram_ok_stack known _ _ _ called
          rw [called, balanced] at failure
          dsimp only at failure
          rw [List.dropLast_concat] at failure
          exact ihNext _ _ _ failure

theorem runUserAction_eq_panic_iff (applicationId : ApplicationId) (program : Program)
    (updateLimits : Except ExecutionError Unit) :
    runUserAction known applicationId program updateLimits = .panic ↔
      known applicationId = true ∧ updateLimits = .ok () ∧
        ∃ message callees, callees ≠ [] ∧
          runProgram known program [applicationId] =
            (applicationId :: callees, .error (.userError message)) := by
  unfold runUserAction
  cases found : known applicationId
  · simp
  · rcases ran : runProgram known program [applicationId] with ⟨after, error | ⟨⟩⟩
    · -- The stack after a failure extends the initial one.
      obtain ⟨callees, rfl⟩ := runProgram_error_stack known _ _ _ _ ran
      cases error <;> cases updateLimits <;> simp
    · rw [runProgram_ok_stack known _ _ _ ran]
      cases updateLimits <;> simp

end Stack

/-- An application calls a known callee that returns `Err(message)`: whatever the caller
would do next, `run_user_action` panics instead of returning. -/
theorem runUserAction_panics_after_failed_call (known : ApplicationId → Bool)
    (applicationId callee : ApplicationId) (message : String) (next : Program)
    (registered : known applicationId = true) (calleeRegistered : known callee = true) :
    runUserAction known applicationId
        (.callApplication callee (.finish (.error message)) next) (.ok ()) = .panic := by
  rw [runUserAction_eq_panic_iff]
  refine ⟨registered, rfl, message, [callee], List.cons_ne_nil _ _, ?_⟩
  rw [runProgram_callApplication_of_known known _ _ _ calleeRegistered]
  rfl

/-- Application 0 calls application 1, which fails. -/
theorem runUserAction_panics_at_zero_one :
    (fun _ => true : ApplicationId → Bool) 0 = true ∧ (fun _ => true : ApplicationId → Bool) 1 = true ∧
      runUserAction (fun _ => true) 0 (.callApplication 1 (.finish (.error "")) (.finish (.ok ())))
        (.ok ()) = .panic :=
  ⟨rfl, rfl, runUserAction_panics_after_failed_call (fun _ => true) 0 1 "" (.finish (.ok ())) rfl rfl⟩

end Linera.Execution
