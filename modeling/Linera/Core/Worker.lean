import Linera.Chain.Manager

set_option autoImplicit false

/-! The worker's handlers of a chain with several owners (`linera-core/src/worker.rs`), at
the height of the chain's next block.

A validator's worker checks a certificate's signatures against the committee, then
consults the chain manager: `handle_block_proposal` votes to validate a proposal,
`process_validated_block` votes to confirm a validated block, and `process_leader_timeout`
moves to a later round. Each returns the manager to save, or an error and saves nothing.

The `ValidatorWorker` documentation promises that repeating a command produces no change
and no error. A node without a key pair breaks it: it locks a validated block without
voting, and the lock then rejects the same certificate in the same round. -/

namespace Linera.Chain.Manager

variable {B V : Type} [DecidableEq B] [DecidableEq V]

/-- `Certificate::check`: the signatures against the committee, where `signed` says which
validators signed a value in a round. -/
def Certificate.check (certificate : Certificate B V) (committee : Committee V)
    (signed : CertificateValue B → Nat → V → Bool) : Except ChainError Unit :=
  committee.checkSignatures (signed certificate.value certificate.round) certificate.signatures

end Linera.Chain.Manager

namespace Linera.Core

open Linera.Chain.Manager

variable {B V : Type} [DecidableEq B] [DecidableEq V]

namespace WorkerState

/-- `handle_block_proposal`, for a proposal whose owner and signature are verified and whose
block executes, given the chain manager's `check_proposed_block` and `create_vote` for the
proposal: the manager to save. -/
def handleBlockProposalWith {M : Type} (checkProposedBlock : M → Except ChainError Outcome)
    (createVote : M → M) (committee : Committee V) (signed : CertificateValue B → Nat → V → Bool)
    (manager : M) (proposal : BlockProposal B V) : Except ChainError M :=
  let checked : Except ChainError Unit :=
    match proposal.validated with
    | some validated => validated.check committee signed
    | none => .ok ()
  match checked with
  | .error error => .error error
  | .ok () =>
      match checkProposedBlock manager with
      | .error error => .error error
      -- If we just processed the same pending block, return the chain info unchanged.
      | .ok .skip => .ok manager
      | .ok .accept => .ok (createVote manager)

/-- `handle_block_proposal` on a chain with several owners. -/
def handleBlockProposal (committee : Committee V) (signed : CertificateValue B → Nat → V → Bool)
    (manager : MultiOwnerManager B V) (keyPair : Option V) (proposal : BlockProposal B V)
    (now : Nat) : Except ChainError (MultiOwnerManager B V) :=
  handleBlockProposalWith (·.checkProposedBlock proposal) (·.createVote proposal keyPair now)
    committee signed manager proposal

/-- `handle_block_proposal` on a chain with a single owner. -/
def handleSingleOwnerBlockProposal (committee : Committee V)
    (signed : CertificateValue B → Nat → V → Bool) (manager : SingleOwnerManager B V)
    (keyPair : Option V) (proposal : BlockProposal B V) :
    Except ChainError (SingleOwnerManager B V) :=
  handleBlockProposalWith (·.checkProposedBlock proposal) (·.createVote proposal keyPair)
    committee signed manager proposal

/-- `process_validated_block`, before the chain has a block at this height: the manager to
save, and whether the certificate was seen already. -/
def processValidatedBlock (committee : Committee V) (signed : CertificateValue B → Nat → V → Bool)
    (manager : MultiOwnerManager B V) (keyPair : Option V) (certificate : Certificate B V)
    (now : Nat) : Except ChainError (MultiOwnerManager B V × Bool) :=
  match certificate.check committee signed with
  | .error error => .error error
  | .ok () =>
      match manager.checkValidatedBlock certificate with
      | .error error => .error error
      | .ok .skip => .ok (manager, true)
      | .ok .accept => .ok (manager.createFinalVote certificate keyPair now, false)

/-- `process_leader_timeout`, before the chain has a block at this height. -/
def processLeaderTimeout (committee : Committee V) (signed : CertificateValue B → Nat → V → Bool)
    (manager : MultiOwnerManager B V) (certificate : Certificate B V) (now : Nat) :
    Except ChainError (MultiOwnerManager B V) :=
  match certificate.check committee signed with
  | .error error => .error error
  | .ok () => .ok (manager.handleTimeoutCertificate certificate now)

omit [DecidableEq B] in
/-- What `handle_block_proposal` saves: the manager unchanged, or the vote for a proposal
that the manager accepts and whose certificate checks. -/
theorem handleBlockProposalWith_eq_ok {M : Type} {checkProposedBlock : M → Except ChainError Outcome}
    {createVote : M → M} {committee : Committee V} {signed : CertificateValue B → Nat → V → Bool}
    {manager next : M} {proposal : BlockProposal B V}
    (handled : handleBlockProposalWith checkProposedBlock createVote committee signed manager
      proposal = .ok next) :
    next = manager ∨
      ((∀ validated, proposal.validated = some validated →
          validated.check committee signed = .ok ()) ∧
        checkProposedBlock manager = .ok .accept ∧ next = createVote manager) := by
  unfold handleBlockProposalWith at handled
  dsimp only at handled
  split at handled
  · cases handled
  · -- The certificate a proposal carries is checked first.
    rename_i passed
    have checked : ∀ validated, proposal.validated = some validated →
        validated.check committee signed = .ok () := by
      intro validated carried
      simpa [carried] using passed
    split at handled
    · cases handled
    · cases handled
      exact Or.inl rfl
    · cases handled
      exact Or.inr ⟨checked, by assumption, rfl⟩

theorem processValidatedBlock_eq_ok {committee : Committee V}
    {signed : CertificateValue B → Nat → V → Bool} {manager next : MultiOwnerManager B V}
    {keyPair : Option V} {certificate : Certificate B V} {now : Nat} {seen : Bool}
    (processed : processValidatedBlock committee signed manager keyPair certificate now =
      .ok (next, seen)) :
    certificate.check committee signed = .ok () ∧
      (next = manager ∨ manager.checkValidatedBlock certificate = .ok .accept ∧
        next = manager.createFinalVote certificate keyPair now) := by
  unfold processValidatedBlock at processed
  split at processed
  · cases processed
  · rename_i checked
    refine ⟨checked, ?_⟩
    split at processed
    · cases processed
    · cases processed
      exact Or.inl rfl
    · cases processed
      exact Or.inr ⟨by assumption, rfl⟩

omit [DecidableEq B] in
theorem processLeaderTimeout_eq_ok {committee : Committee V}
    {signed : CertificateValue B → Nat → V → Bool} {manager next : MultiOwnerManager B V}
    {certificate : Certificate B V} {now : Nat}
    (processed : processLeaderTimeout committee signed manager certificate now = .ok next) :
    next = manager.handleTimeoutCertificate certificate now := by
  unfold processLeaderTimeout at processed
  split at processed
  · cases processed
  · cases processed
    rfl

/-- A node without a key pair that has signed nothing and holds no lock from this round
on accepts a validated block certificate, locks it without voting, and then rejects the
same certificate: the lock admits only later rounds. -/
theorem processValidatedBlock_repeated_without_key (committee : Committee V)
    (signed : CertificateValue B → Nat → V → Bool) (manager : MultiOwnerManager B V)
    (certificate : Certificate B V) (block : B) (now : Nat)
    (validated : certificate.value = .validatedBlock block)
    (checked : certificate.check committee signed = .ok ())
    (noVote : manager.pending = none)
    (earlierLock : ∀ locked, manager.locked = some locked → locked.round < certificate.round) :
    ∃ next, processValidatedBlock committee signed manager none certificate now = .ok (next, false) ∧
      processValidatedBlock committee signed next none certificate now =
        .error (.insufficientRound certificate.round) := by
  -- Without a key pair the certificate passes the checks of a first delivery.
  have accepted : manager.checkValidatedBlock certificate = .ok .accept := by
    unfold MultiOwnerManager.checkValidatedBlock
    rw [noVote]
    dsimp only [MultiOwnerManager.alreadyConfirmed]
    rcases lockedEq : manager.locked with _ | locked
    · rfl
    · simp [earlierLock locked lockedEq]
  -- The lock is set to the certificate and no vote is signed.
  obtain ⟨next, nextEq, lockedNext, pendingNext⟩ : ∃ next,
      manager.createFinalVote certificate none now = next ∧ next.locked = some certificate ∧
        next.pending = none := by
    rcases MultiOwnerManager.createFinalVote_spec manager certificate none now with
      unchanged | ⟨-, confirmed, valueEq, -, lockedEq, -, -, pendingEq⟩
    · -- A validated block is always locked.
      exfalso
      simp [MultiOwnerManager.createFinalVote, validated, CertificateValue.intoConfirmed] at unchanged
      have := congrArg MultiOwnerManager.locked unchanged
      simp at this
      exact absurd (earlierLock certificate this.symm) (lt_irrefl _)
    · exact ⟨_, rfl, lockedEq, by simpa [noVote] using pendingEq⟩
  refine ⟨next, ?_, ?_⟩
  · simp [processValidatedBlock, checked, accepted, nextEq]
  · have rejected : next.checkValidatedBlock certificate = .error (.insufficientRound certificate.round) := by
      unfold MultiOwnerManager.checkValidatedBlock
      rw [pendingNext]
      dsimp only [MultiOwnerManager.alreadyConfirmed]
      rw [lockedNext]
      simp
    simp [processValidatedBlock, checked, rejected]

/-- A committee of one validator, a certificate of block 7 in round 0 that it signed, and
a fresh manager on a node without a key pair. -/
theorem processValidatedBlock_repeated_at_round_zero :
    let committee : Committee Nat := ⟨{0}, fun _ => 1⟩
    let certificate : Certificate Nat Nat := ⟨.validatedBlock 7, 0, [0]⟩
    let manager : MultiOwnerManager Nat Nat := MultiOwnerManager.new 0 0
    certificate.value = .validatedBlock 7 ∧
      certificate.check committee (fun _ _ _ => true) = .ok () ∧ manager.pending = none ∧
      (∀ locked, manager.locked = some locked → locked.round < certificate.round) ∧
      ∃ next, processValidatedBlock committee (fun _ _ _ => true) manager none certificate 0 =
          .ok (next, false) ∧
        processValidatedBlock committee (fun _ _ _ => true) next none certificate 0 =
          .error (.insufficientRound certificate.round) := by
  intro committee certificate manager
  have checked : certificate.check committee (fun _ _ _ => true) = .ok () := by decide
  have unlocked : ∀ locked, manager.locked = some locked → locked.round < certificate.round := by
    intro locked found
    cases found
  exact ⟨rfl, checked, rfl, unlocked,
    processValidatedBlock_repeated_without_key committee (fun _ _ _ => true) manager certificate 7 0
      rfl checked rfl unlocked⟩

end WorkerState

end Linera.Core
