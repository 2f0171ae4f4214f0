import Linera.Core.Network

set_option autoImplicit false

/-! Safety of the consensus on a chain's next block (`linera-chain/src/manager/multi.rs`,
`single.rs`, `linera-core/src/worker.rs`).

On a chain with several owners, a validator that follows the protocol keeps the facts of
`MultiOwnerNetwork.Honest`. It validates one block per round, in rounds up to its last
proposal. It confirms only a block certified as validated, in a round not before its
current one, and stays locked from then on. After confirming, it validates a block in a
later round only when a certificate from the round of the confirmation or later allows
it. Two quorums share such a validator, so a confirmed block is the only block validated
in its round and in every later one: two confirmed certificates hold the same block.

On a chain with a single owner, a validator confirms the first proposal of round 0
directly and never votes again, so two confirmed certificates share a vote. -/

namespace Linera.Core

open Linera.Chain.Manager Network

/-- The network of a chain with several owners. -/
abbrev MultiOwnerNetwork (B V : Type) := Network (MultiOwnerManager B V) B V

namespace MultiOwnerNetwork

variable {B V : Type} [DecidableEq B] [DecidableEq V]

/-- Every validator starts with `MultiOwnerManager::new`, and no vote is sent. -/
def initial (multiLeaderRounds now : Nat) : MultiOwnerNetwork B V :=
  ⟨fun _ => .new multiLeaderRounds now, []⟩

section Step

variable (committee : Committee V) (faulty : Finset V)

/-- The manager a validator's worker saves after a request: on an error it saves
nothing. -/
def handle (network : MultiOwnerNetwork B V) (validator : V) (now : Nat) :
    Request B V → MultiOwnerManager B V
  | .handleBlockProposal proposal =>
      match WorkerState.handleBlockProposal committee (network.signed faulty)
          (network.managers validator) (some validator) proposal now with
      | .ok manager => manager
      | .error _ => network.managers validator
  | .processValidatedBlock certificate =>
      match WorkerState.processValidatedBlock committee (network.signed faulty)
          (network.managers validator) (some validator) certificate now with
      | .ok (manager, _) => manager
      | .error _ => network.managers validator
  | .processLeaderTimeout certificate =>
      match WorkerState.processLeaderTimeout committee (network.signed faulty)
          (network.managers validator) certificate now with
      | .ok manager => manager
      | .error _ => network.managers validator
  | .voteLeaderTimeout => ((network.managers validator).voteLeaderTimeout (some validator) now).1

/-- A validator saves its manager and sends the votes it holds. -/
def record (network : MultiOwnerNetwork B V) (validator : V) (manager : MultiOwnerManager B V) :
    MultiOwnerNetwork B V :=
  network.send validator manager (manager.pending.toList ++ manager.timeoutVote.toList)

/-- One request to one validator. A faulty validator's manager is not modelled: its
signature stands for any vote. -/
def step (network : MultiOwnerNetwork B V) (action : Action B V) : MultiOwnerNetwork B V :=
  if action.validator ∈ faulty then network
  else
    network.record action.validator
      (network.handle committee faulty action.validator action.now action.request)

def run (network : MultiOwnerNetwork B V) (actions : List (Action B V)) : MultiOwnerNetwork B V :=
  actions.foldl (step committee faulty) network

end Step

section Record

variable {network : MultiOwnerNetwork B V} {validator : V} {manager : MultiOwnerManager B V}

omit [DecidableEq B] in
@[simp] theorem managers_record_self :
    (network.record validator manager).managers validator = manager :=
  managers_send_self

omit [DecidableEq B] in
theorem managers_record_of_ne {other : V} (different : other ≠ validator) :
    (network.record validator manager).managers other = network.managers other :=
  managers_send_of_ne different

omit [DecidableEq B] in
theorem mem_record_votes {vote : Vote B V} :
    vote ∈ (network.record validator manager).votes ↔
      vote ∈ network.votes ∨ manager.pending = some vote ∨ manager.timeoutVote = some vote := by
  simp [record]

omit [DecidableEq B] in
theorem mem_record_votes_of_mem {vote : Vote B V} (sent : vote ∈ network.votes) :
    vote ∈ (network.record validator manager).votes :=
  mem_record_votes.mpr (Or.inl sent)

end Record

section Honest

variable (committee : Committee V) (faulty : Finset V)

/-- What a validator that follows the protocol keeps, about its manager and the votes it
sent. -/
structure Honest (network : MultiOwnerNetwork B V) (validator : V) : Prop where
  /-- The votes it holds were sent, and are its own. -/
  pending : ∀ vote, (network.managers validator).pending = some vote →
    vote ∈ network.votes ∧ vote.validator = validator
  timeoutVote : ∀ vote, (network.managers validator).timeoutVote = some vote →
    vote ∈ network.votes ∧ vote.validator = validator
  /-- It validated blocks in rounds up to its last proposal ... -/
  validatedBelow : ∀ block round, ⟨.validatedBlock block, round, validator⟩ ∈ network.votes →
    ∃ proposal, (network.managers validator).proposed = some proposal ∧
      round ≤ proposal.content.round
  /-- ... and one block in each round. -/
  validatedUnique : ∀ block block' round,
    ⟨.validatedBlock block, round, validator⟩ ∈ network.votes →
    ⟨.validatedBlock block', round, validator⟩ ∈ network.votes → block = block'
  /-- Its lock is a certified validated block. -/
  lockedCertified : ∀ locked, (network.managers validator).locked = some locked →
    ∃ block, locked.value = .validatedBlock block ∧
      Certified committee faulty network (.validatedBlock block) locked.round
  /-- It confirmed only blocks certified as validated in the same round ... -/
  confirmedCertified : ∀ block round, ⟨.confirmedBlock block, round, validator⟩ ∈ network.votes →
    Certified committee faulty network (.validatedBlock block) round
  /-- ... and stays locked from the round of each confirmation on. -/
  confirmedLocked : ∀ block round, ⟨.confirmedBlock block, round, validator⟩ ∈ network.votes →
    ∃ locked, (network.managers validator).locked = some locked ∧ round ≤ locked.round
  /-- After a confirmation it validates a block in a later round only when a certificate
  from the round of the confirmation or later allows it. -/
  confirmedJustifies : ∀ block round block' round',
    ⟨.confirmedBlock block, round, validator⟩ ∈ network.votes →
    ⟨.validatedBlock block', round', validator⟩ ∈ network.votes → round < round' →
    ∃ between, round ≤ between ∧ between < round' ∧
      Certified committee faulty network (.validatedBlock block') between

theorem honest_initial (multiLeaderRounds now : Nat) (validator : V) :
    Honest committee faulty (initial multiLeaderRounds now : MultiOwnerNetwork B V) validator where
  pending := by simp [initial, MultiOwnerManager.new]
  timeoutVote := by simp [initial, MultiOwnerManager.new]
  validatedBelow := by simp [initial]
  validatedUnique := by simp [initial]
  lockedCertified := by simp [initial, MultiOwnerManager.new]
  confirmedCertified := by simp [initial]
  confirmedLocked := by simp [initial]
  confirmedJustifies := by simp [initial]

variable {committee faulty}
variable {network : MultiOwnerNetwork B V} {validator acting : V} {manager : MultiOwnerManager B V}

theorem Honest.record_of_sent (honest : Honest committee faulty network validator)
    (proposedEq : ((network.record acting manager).managers validator).proposed =
      (network.managers validator).proposed)
    (lockedEq : ((network.record acting manager).managers validator).locked =
      (network.managers validator).locked)
    (sent : ∀ value round, value ≠ .leaderTimeout →
      ⟨value, round, validator⟩ ∈ (network.record acting manager).votes →
      ⟨value, round, validator⟩ ∈ network.votes)
    (pending : ∀ vote, ((network.record acting manager).managers validator).pending = some vote →
      vote ∈ (network.record acting manager).votes ∧ vote.validator = validator)
    (timeoutVote : ∀ vote,
      ((network.record acting manager).managers validator).timeoutVote = some vote →
      vote ∈ (network.record acting manager).votes ∧ vote.validator = validator) :
    Honest committee faulty (network.record acting manager) validator where
  pending := pending
  timeoutVote := timeoutVote
  validatedBelow block round mem := by
    rw [proposedEq]
    exact honest.validatedBelow block round (sent _ _ (by simp) mem)
  validatedUnique block block' round first second :=
    honest.validatedUnique block block' round (sent _ _ (by simp) first) (sent _ _ (by simp) second)
  lockedCertified locked found := by
    rw [lockedEq] at found
    obtain ⟨block, value, certified⟩ := honest.lockedCertified locked found
    exact ⟨block, value, certified.send⟩
  confirmedCertified block round mem :=
    (honest.confirmedCertified block round (sent _ _ (by simp) mem)).send
  confirmedLocked block round mem := by
    rw [lockedEq]
    exact honest.confirmedLocked block round (sent _ _ (by simp) mem)
  confirmedJustifies block round block' round' confirmed validated later := by
    obtain ⟨between, after, before, certified⟩ := honest.confirmedJustifies block round block' round'
      (sent _ _ (by simp) confirmed) (sent _ _ (by simp) validated) later
    exact ⟨between, after, before, certified.send⟩

theorem Honest.record_other (honest : Honest committee faulty network validator)
    (different : validator ≠ acting)
    (ownPending : ∀ vote, manager.pending = some vote → vote.validator = acting)
    (ownTimeout : ∀ vote, manager.timeoutVote = some vote → vote.validator = acting) :
    Honest committee faulty (network.record acting manager) validator := by
  have kept : (network.record acting manager).managers validator = network.managers validator :=
    managers_record_of_ne different
  refine honest.record_of_sent (by rw [kept]) (by rw [kept]) ?_ ?_ ?_
  · -- The new votes are the acting validator's.
    intro value round _ mem
    rcases mem_record_votes.mp mem with old | held | held
    · exact old
    · exact absurd (ownPending _ held) different
    · exact absurd (ownTimeout _ held) different
  · intro vote held
    rw [kept] at held
    obtain ⟨old, own⟩ := honest.pending vote held
    exact ⟨mem_record_votes_of_mem old, own⟩
  · intro vote held
    rw [kept] at held
    obtain ⟨old, own⟩ := honest.timeoutVote vote held
    exact ⟨mem_record_votes_of_mem old, own⟩

theorem Honest.record_of_keeps (honest : Honest committee faulty network validator)
    (proposedEq : manager.proposed = (network.managers validator).proposed)
    (lockedEq : manager.locked = (network.managers validator).locked)
    (pendingEq : manager.pending = (network.managers validator).pending)
    (timeoutEq : manager.timeoutVote = (network.managers validator).timeoutVote ∨
      ∃ round, manager.timeoutVote = some ⟨.leaderTimeout, round, validator⟩) :
    Honest committee faulty (network.record validator manager) validator := by
  refine honest.record_of_sent (by simp [proposedEq]) (by simp [lockedEq]) ?_ ?_ ?_
  · intro value round notTimeout mem
    rcases mem_record_votes.mp mem with old | held | held
    · exact old
    · rw [pendingEq] at held
      exact (honest.pending _ held).1
    · rcases timeoutEq with same | ⟨timeoutRound, fresh⟩
      · rw [same] at held
        exact (honest.timeoutVote _ held).1
      · rw [fresh] at held
        cases held
        exact absurd rfl notTimeout
  · intro vote held
    rw [managers_record_self, pendingEq] at held
    obtain ⟨old, own⟩ := honest.pending vote held
    exact ⟨mem_record_votes_of_mem old, own⟩
  · intro vote held
    rw [managers_record_self] at held
    rcases timeoutEq with same | ⟨timeoutRound, fresh⟩
    · rw [same] at held
      obtain ⟨old, own⟩ := honest.timeoutVote vote held
      exact ⟨mem_record_votes_of_mem old, own⟩
    · rw [fresh] at held
      cases held
      exact ⟨mem_record_votes.mpr (Or.inr (Or.inr fresh)), rfl⟩

theorem Honest.record_createVote {proposal : BlockProposal B V} {now : Nat}
    (honest : Honest committee faulty network validator)
    (accepted : (network.managers validator).checkProposedBlock proposal = .ok .accept)
    (checked : ∀ validated, proposal.validated = some validated →
      validated.check committee (network.signed faulty) = .ok ()) :
    Honest committee faulty
      (network.record validator
        ((network.managers validator).createVote proposal (some validator) now)) validator := by
  obtain ⟨proposedEq, timeoutEq, -, pendingEq, lockedCases⟩ :=
    (network.managers validator).createVote_spec proposal (some validator) now
  obtain ⟨validatedOk, later, lockOk⟩ := MultiOwnerManager.checkProposedBlock_eq_accept accepted
  -- The one new vote validates the proposal's block in its round.
  have sent : ∀ vote, vote ∈ (network.record validator
      ((network.managers validator).createVote proposal (some validator) now)).votes →
      vote ∈ network.votes ∨
        vote = ⟨.validatedBlock proposal.content.block, proposal.content.round, validator⟩ := by
    intro vote mem
    rcases mem_record_votes.mp mem with old | held | held
    · exact Or.inl old
    · rw [pendingEq] at held
      exact Or.inr (Option.some.inj held).symm
    · rw [timeoutEq] at held
      exact Or.inl (honest.timeoutVote vote held).1
  -- Earlier votes to validate are from rounds before the proposal's.
  have earlier : ∀ block round, ⟨.validatedBlock block, round, validator⟩ ∈ network.votes →
      round < proposal.content.round := by
    intro block round mem
    obtain ⟨oldProposal, oldEq, below⟩ := honest.validatedBelow block round mem
    have := later oldProposal oldEq
    omega
  constructor
  · intro vote held
    rw [managers_record_self, pendingEq] at held
    cases held
    exact ⟨mem_record_votes.mpr (Or.inr (Or.inl pendingEq)), rfl⟩
  · intro vote held
    rw [managers_record_self, timeoutEq] at held
    obtain ⟨old, own⟩ := honest.timeoutVote vote held
    exact ⟨mem_record_votes_of_mem old, own⟩
  · intro block round mem
    rw [managers_record_self, proposedEq]
    refine ⟨proposal, rfl, ?_⟩
    rcases sent _ mem with old | fresh
    · exact (earlier block round old).le
    · cases fresh
      exact le_rfl
  · intro block block' round first second
    rcases sent _ first with firstOld | firstFresh <;> rcases sent _ second with secondOld | secondFresh
    · exact honest.validatedUnique block block' round firstOld secondOld
    · cases secondFresh
      exact absurd (earlier block _ firstOld) (lt_irrefl _)
    · cases firstFresh
      exact absurd (earlier block' _ secondOld) (lt_irrefl _)
    · cases firstFresh
      cases secondFresh
      rfl
  · intro locked found
    rw [managers_record_self] at found
    rcases lockedCases with same | ⟨validated, carried, lockedEq, -⟩
    · rw [same] at found
      obtain ⟨block, value, certified⟩ := honest.lockedCertified locked found
      exact ⟨block, value, certified.send⟩
    · -- The lock moves to the proposal's certificate, which checks and validates.
      rw [lockedEq] at found
      obtain rfl : validated = locked := Option.some.inj found
      obtain ⟨block, value⟩ := CertificateValue.exists_of_isValidated
        (MultiOwnerManager.isValidated_of_checkValidatedValue validatedOk validated carried)
      have certified := certified_of_check (checked validated carried)
      rw [value] at certified
      exact ⟨block, value, certified.send⟩
  · intro block round mem
    rcases sent _ mem with old | fresh
    · exact (honest.confirmedCertified block round old).send
    · cases fresh
  · intro block round mem
    rcases sent _ mem with old | fresh
    · obtain ⟨locked, lockedEq, below⟩ := honest.confirmedLocked block round old
      rw [managers_record_self]
      rcases lockedCases with same | ⟨validated, -, lockedEq', newer⟩
      · exact ⟨locked, same.trans lockedEq, below⟩
      · exact ⟨validated, lockedEq', below.trans (newer locked lockedEq).le⟩
    · cases fresh
  · intro block round block' round' confirmed validated after
    rcases sent _ confirmed with confirmedOld | fresh
    · rcases sent _ validated with validatedOld | fresh
      · obtain ⟨between, from', before, certified⟩ := honest.confirmedJustifies block round block'
          round' confirmedOld validatedOld after
        exact ⟨between, from', before, certified.send⟩
      · -- The new vote: the highest certificate the proposal is checked against is no
        -- earlier than the lock, and allows the proposal's block.
        cases fresh
        obtain ⟨locked, lockedEq, below⟩ := honest.confirmedLocked block round confirmedOld
        obtain ⟨highest, highestEq, lockedLe, highestCases⟩ :=
          @MultiOwnerManager.highestCertificate_of_locked B V proposal.validated locked
        rw [lockedEq, highestEq] at lockOk
        obtain ⟨highestBefore, highestBlock⟩ :=
          MultiOwnerManager.checkLockedBlock_eq_ok lockOk highest rfl
        obtain ⟨validatedBlock, value, certified⟩ : ∃ validatedBlock,
            highest.value = .validatedBlock validatedBlock ∧
              Certified committee faulty network (.validatedBlock validatedBlock) highest.round := by
          rcases highestCases with same | carried
          · subst same
            exact honest.lockedCertified highest lockedEq
          · obtain ⟨validatedBlock, value⟩ := CertificateValue.exists_of_isValidated
              (MultiOwnerManager.isValidated_of_checkValidatedValue validatedOk highest carried)
            have certified := certified_of_check (checked highest carried)
            rw [value] at certified
            exact ⟨validatedBlock, value, certified⟩
        rw [value] at highestBlock
        cases highestBlock
        exact ⟨highest.round, below.trans lockedLe, highestBefore, certified.send⟩
    · cases fresh

theorem Honest.record_createFinalVote {certificate : Certificate B V} {now : Nat}
    (honest : Honest committee faulty network validator)
    (accepted : (network.managers validator).checkValidatedBlock certificate = .ok .accept)
    (checked : certificate.check committee (network.signed faulty) = .ok ()) :
    Honest committee faulty
      (network.record validator
        ((network.managers validator).createFinalVote certificate (some validator) now))
      validator := by
  rcases (network.managers validator).createFinalVote_spec certificate (some validator) now with
    unchanged | ⟨current, block, value, proposedEq, lockedEq, timeoutEq, -, pendingEq⟩
  · rw [unchanged]
    exact honest.record_of_keeps rfl rfl rfl (Or.inl rfl)
  have certified := certified_of_check checked
  rw [value] at certified
  have newer := MultiOwnerManager.checkValidatedBlock_eq_accept accepted
  -- The one new vote confirms the certificate's block in its round.
  have sent : ∀ vote, vote ∈ (network.record validator
      ((network.managers validator).createFinalVote certificate (some validator) now)).votes →
      vote ∈ network.votes ∨ vote = ⟨.confirmedBlock block, certificate.round, validator⟩ := by
    intro vote mem
    rcases mem_record_votes.mp mem with old | held | held
    · exact Or.inl old
    · rw [pendingEq] at held
      exact Or.inr (Option.some.inj held).symm
    · rw [timeoutEq] at held
      exact Or.inl (honest.timeoutVote vote held).1
  constructor
  · intro vote held
    rw [managers_record_self, pendingEq] at held
    cases held
    exact ⟨mem_record_votes.mpr (Or.inr (Or.inl pendingEq)), rfl⟩
  · intro vote held
    rw [managers_record_self, timeoutEq] at held
    obtain ⟨old, own⟩ := honest.timeoutVote vote held
    exact ⟨mem_record_votes_of_mem old, own⟩
  · intro block' round mem
    rcases sent _ mem with old | fresh
    · rw [managers_record_self, proposedEq]
      exact honest.validatedBelow block' round old
    · cases fresh
  · intro block' block'' round first second
    rcases sent _ first with firstOld | fresh
    · rcases sent _ second with secondOld | fresh
      · exact honest.validatedUnique block' block'' round firstOld secondOld
      · cases fresh
    · cases fresh
  · intro locked found
    rw [managers_record_self, lockedEq] at found
    cases found
    exact ⟨block, value, certified.send⟩
  · intro block' round mem
    rcases sent _ mem with old | fresh
    · exact (honest.confirmedCertified block' round old).send
    · cases fresh
      exact certified.send
  · intro block' round mem
    rw [managers_record_self, lockedEq]
    refine ⟨certificate, rfl, ?_⟩
    rcases sent _ mem with old | fresh
    · -- The earlier lock was from a round before the certificate's.
      obtain ⟨locked, lockedEq', below⟩ := honest.confirmedLocked block' round old
      exact below.trans (newer locked lockedEq').le
    · cases fresh
      exact le_rfl
  · intro block' round block'' round' confirmed validated after
    have validatedOld : ⟨.validatedBlock block'', round', validator⟩ ∈ network.votes := by
      rcases sent _ validated with old | fresh
      · exact old
      · cases fresh
    rcases sent _ confirmed with confirmedOld | fresh
    · obtain ⟨between, from', before, certified'⟩ := honest.confirmedJustifies block' round block''
        round' confirmedOld validatedOld after
      exact ⟨between, from', before, certified'.send⟩
    · -- A validator confirms only in its current round, which no earlier vote to validate
      -- passes.
      cases fresh
      obtain ⟨proposal, proposedEq', below⟩ := honest.validatedBelow block'' round' validatedOld
      have proposalLe := MultiOwnerManager.le_currentRound_of_proposed proposedEq'
      have currentLe := current rfl
      omega

theorem Honest.record_self (honest : Honest committee faulty network validator) :
    Honest committee faulty (network.record validator (network.managers validator)) validator :=
  honest.record_of_keeps rfl rfl rfl (Or.inl rfl)

/-- Whatever its worker is asked, a validator that follows the protocol keeps `Honest`. -/
theorem Honest.record_handle (honest : Honest committee faulty network validator) (now : Nat)
    (request : Request B V) :
    Honest committee faulty
      (network.record validator (network.handle committee faulty validator now request))
      validator := by
  cases request with
  | handleBlockProposal proposal =>
      dsimp only [handle]
      split
      · rename_i manager handled
        rcases WorkerState.handleBlockProposalWith_eq_ok handled with
          unchanged | ⟨checked, accepted, voted⟩
        · rw [unchanged]
          exact honest.record_self
        · rw [voted]
          exact honest.record_createVote accepted checked
      · exact honest.record_self
  | processValidatedBlock certificate =>
      dsimp only [handle]
      split
      · rename_i manager seen processed
        obtain ⟨checked, unchanged | ⟨accepted, voted⟩⟩ :=
          WorkerState.processValidatedBlock_eq_ok processed
        · rw [unchanged]
          exact honest.record_self
        · rw [voted]
          exact honest.record_createFinalVote accepted checked
      · exact honest.record_self
  | processLeaderTimeout certificate =>
      dsimp only [handle]
      split
      · rename_i manager processed
        rw [WorkerState.processLeaderTimeout_eq_ok processed]
        obtain ⟨proposedEq, lockedEq, pendingEq, timeoutEq, -⟩ :=
          (network.managers validator).handleTimeoutCertificate_votes certificate now
        exact honest.record_of_keeps proposedEq lockedEq pendingEq (Or.inl timeoutEq)
      · exact honest.record_self
  | voteLeaderTimeout =>
      dsimp only [handle]
      obtain ⟨proposedEq, lockedEq, pendingEq, timeoutCases, -⟩ :=
        (network.managers validator).voteLeaderTimeout_votes (some validator) now
      refine honest.record_of_keeps proposedEq lockedEq pendingEq ?_
      rcases timeoutCases with same | ⟨signer, round, keyEq, fresh⟩
      · exact Or.inl same
      · -- The timeout vote is signed with the validator's own key.
        cases keyEq
        exact Or.inr ⟨round, fresh⟩

end Honest

section Run

variable {committee : Committee V} {faulty : Finset V}

theorem honest_step {network : MultiOwnerNetwork B V}
    (honest : ∀ v ∉ faulty, Honest committee faulty network v) (action : Action B V) :
    ∀ v ∉ faulty, Honest committee faulty (network.step committee faulty action) v := by
  intro v notFaulty
  unfold step
  split_ifs with actingFaulty
  · exact honest v notFaulty
  · have acting := (honest action.validator actingFaulty).record_handle action.now action.request
    rcases eq_or_ne v action.validator with rfl | different
    · exact acting
    · -- The votes the acting validator holds are its own.
      refine (honest v notFaulty).record_other different ?_ ?_
      · intro vote held
        exact (acting.pending vote (by rw [managers_record_self]; exact held)).2
      · intro vote held
        exact (acting.timeoutVote vote (by rw [managers_record_self]; exact held)).2

theorem honest_run {network : MultiOwnerNetwork B V}
    (honest : ∀ v ∉ faulty, Honest committee faulty network v) (actions : List (Action B V)) :
    ∀ v ∉ faulty, Honest committee faulty (network.run committee faulty actions) v := by
  induction actions generalizing network with
  | nil => exact honest
  | cons action rest ih => exact ih (honest_step honest action)

end Run

section Safety

variable {committee : Committee V} {faulty : Finset V} {network : MultiOwnerNetwork B V}
  (fits : committee.Fits)
  (fewFaulty : ∑ v ∈ faulty, committee.votingRights v < committee.validityThreshold.toNat)
  (honest : ∀ v ∉ faulty, Honest committee faulty network v)
include fits fewFaulty honest

theorem validated_unique {block block' : B} {round : Nat}
    (first : Certified committee faulty network (.validatedBlock block) round)
    (second : Certified committee faulty network (.validatedBlock block') round) : block = block' := by
  obtain ⟨v, notFaulty, firstSent, secondSent⟩ := exists_honest_signer fits fewFaulty first second
  exact (honest v notFaulty).validatedUnique block block' round firstSent secondSent

theorem validated_of_confirmed {block : B} {round : Nat}
    (confirmed : Certified committee faulty network (.confirmedBlock block) round) :
    Certified committee faulty network (.validatedBlock block) round := by
  obtain ⟨v, notFaulty, sent, -⟩ := exists_honest_signer fits fewFaulty confirmed confirmed
  exact (honest v notFaulty).confirmedCertified block round sent

/-- Once a block is confirmed in a round, it is the only block validated in that round and
in every later one. -/
theorem validated_eq_of_confirmed {block : B} {round : Nat}
    (confirmed : Certified committee faulty network (.confirmedBlock block) round) (later : Nat)
    (after : round ≤ later) (block' : B)
    (validated : Certified committee faulty network (.validatedBlock block') later) :
    block' = block := by
  -- Strong induction on the later round: a validation after the confirmation rests on a
  -- certificate from an earlier round.
  induction later using Nat.strong_induction_on generalizing block' with
  | _ later ih =>
      rcases Nat.eq_or_lt_of_le after with same | before
      · subst same
        exact validated_unique fits fewFaulty honest validated
          (validated_of_confirmed fits fewFaulty honest confirmed)
      · obtain ⟨v, notFaulty, confirmedSent, validatedSent⟩ :=
          exists_honest_signer fits fewFaulty confirmed validated
        obtain ⟨between, from', before', certified⟩ := (honest v notFaulty).confirmedJustifies
          block round block' later confirmedSent validatedSent before
        exact ih between before' from' block' certified

theorem confirmed_unique {block block' : B} {round round' : Nat}
    (first : Certified committee faulty network (.confirmedBlock block) round)
    (second : Certified committee faulty network (.confirmedBlock block') round') :
    block = block' := by
  rcases le_total round round' with before | after
  · exact (validated_eq_of_confirmed fits fewFaulty honest first round' before block'
      (validated_of_confirmed fits fewFaulty honest second)).symm
  · exact validated_eq_of_confirmed fits fewFaulty honest second round after block
      (validated_of_confirmed fits fewFaulty honest first)

end Safety

end MultiOwnerNetwork

/-- The network of a chain with a single owner. -/
abbrev SingleOwnerNetwork (B V : Type) := Network (SingleOwnerManager B V) B V

namespace SingleOwnerNetwork

variable {B V : Type} [DecidableEq B] [DecidableEq V]

/-- Every validator starts with `SingleOwnerManager::new`, and no vote is sent. -/
def initial : SingleOwnerNetwork B V :=
  ⟨fun _ => ⟨none⟩, []⟩

section Step

variable (committee : Committee V) (faulty : Finset V)

/-- The manager a validator's worker saves after a request. On a chain with a single
owner, `check_validated_block` and `handle_timeout_certificate` stop at
`panic!("unexpected chain manager")`, and `vote_leader_timeout` signs nothing: those
requests save nothing. -/
def handle (network : SingleOwnerNetwork B V) (validator : V) :
    Request B V → SingleOwnerManager B V
  | .handleBlockProposal proposal =>
      match WorkerState.handleSingleOwnerBlockProposal committee (network.signed faulty)
          (network.managers validator) (some validator) proposal with
      | .ok manager => manager
      | .error _ => network.managers validator
  | _ => network.managers validator

def record (network : SingleOwnerNetwork B V) (validator : V) (manager : SingleOwnerManager B V) :
    SingleOwnerNetwork B V :=
  network.send validator manager manager.pending.toList

/-- One request to one validator; a faulty validator's manager is not modelled. -/
def step (network : SingleOwnerNetwork B V) (action : Action B V) : SingleOwnerNetwork B V :=
  if action.validator ∈ faulty then network
  else
    network.record action.validator
      (network.handle committee faulty action.validator action.request)

def run (network : SingleOwnerNetwork B V) (actions : List (Action B V)) :
    SingleOwnerNetwork B V :=
  actions.foldl (step committee faulty) network

end Step

section Honest

variable {network : SingleOwnerNetwork B V} {validator acting : V}
  {manager : SingleOwnerManager B V}

omit [DecidableEq B] in
@[simp] theorem managers_record_self :
    (network.record validator manager).managers validator = manager :=
  managers_send_self

omit [DecidableEq B] in
theorem mem_record_votes {vote : Vote B V} :
    vote ∈ (network.record validator manager).votes ↔
      vote ∈ network.votes ∨ manager.pending = some vote := by
  simp [record]

/-- What a validator that follows the protocol keeps on a chain with a single owner: a
vote it sent to confirm a block is the one it holds. -/
structure Honest (network : SingleOwnerNetwork B V) (validator : V) : Prop where
  pending : ∀ vote, (network.managers validator).pending = some vote →
    vote ∈ network.votes ∧ vote.validator = validator
  confirmedPending : ∀ block round, ⟨.confirmedBlock block, round, validator⟩ ∈ network.votes →
    (network.managers validator).pending = some ⟨.confirmedBlock block, round, validator⟩

omit [DecidableEq B] [DecidableEq V] in
theorem honest_initial (validator : V) : Honest (initial : SingleOwnerNetwork B V) validator where
  pending := by simp [initial]
  confirmedPending := by simp [initial]

omit [DecidableEq B] in
theorem Honest.record_other (honest : Honest network validator) (different : validator ≠ acting)
    (own : ∀ vote, manager.pending = some vote → vote.validator = acting) :
    Honest (network.record acting manager) validator := by
  have kept : (network.record acting manager).managers validator = network.managers validator :=
    managers_send_of_ne different
  constructor
  · intro vote held
    rw [kept] at held
    obtain ⟨old, mine⟩ := honest.pending vote held
    exact ⟨mem_record_votes.mpr (Or.inl old), mine⟩
  · intro block round mem
    rw [kept]
    rcases mem_record_votes.mp mem with old | held
    · exact honest.confirmedPending block round old
    · exact absurd (own _ held) different

omit [DecidableEq B] in
theorem Honest.record_self (honest : Honest network validator) :
    Honest (network.record validator (network.managers validator)) validator := by
  constructor
  · intro vote held
    rw [managers_record_self] at held
    obtain ⟨old, mine⟩ := honest.pending vote held
    exact ⟨mem_record_votes.mpr (Or.inl old), mine⟩
  · intro block round mem
    rw [managers_record_self]
    rcases mem_record_votes.mp mem with old | held
    · exact honest.confirmedPending block round old
    · exact held

theorem Honest.record_createVote {proposal : BlockProposal B V} (honest : Honest network validator)
    (accepted : (network.managers validator).checkProposedBlock proposal = .ok .accept) :
    Honest (network.record validator
      ((network.managers validator).createVote proposal (some validator))) validator := by
  obtain ⟨first, unvoted⟩ := SingleOwnerManager.checkProposedBlock_eq_accept accepted
  rw [SingleOwnerManager.createVote_of_round_zero _ _ _ first]
  have unsent : ∀ block round, ⟨.confirmedBlock block, round, validator⟩ ∉ network.votes := by
    intro block round sent
    have held := honest.confirmedPending block round sent
    rw [unvoted] at held
    cases held
  constructor
  · intro vote held
    rw [managers_record_self] at held
    refine ⟨mem_record_votes.mpr (Or.inr held), ?_⟩
    cases held
    rfl
  · intro block round mem
    rw [managers_record_self]
    rcases mem_record_votes.mp mem with old | held
    · exact absurd old (unsent block round)
    · exact held

variable {committee : Committee V} {faulty : Finset V}

theorem Honest.record_handle (honest : Honest network validator) (request : Request B V) :
    Honest (network.record validator (network.handle committee faulty validator request))
      validator := by
  cases request with
  | handleBlockProposal proposal =>
      dsimp only [handle]
      split
      · rename_i manager handled
        rcases WorkerState.handleBlockProposalWith_eq_ok handled with
          unchanged | ⟨-, accepted, voted⟩
        · rw [unchanged]
          exact honest.record_self
        · rw [voted]
          exact honest.record_createVote accepted
      · exact honest.record_self
  | processValidatedBlock => exact honest.record_self
  | processLeaderTimeout => exact honest.record_self
  | voteLeaderTimeout => exact honest.record_self

theorem honest_step (honest : ∀ v ∉ faulty, Honest network v) (action : Action B V) :
    ∀ v ∉ faulty, Honest (network.step committee faulty action) v := by
  intro v notFaulty
  unfold step
  split_ifs with actingFaulty
  · exact honest v notFaulty
  · have acting : Honest (network.record action.validator
        (network.handle committee faulty action.validator action.request)) action.validator :=
      (honest action.validator actingFaulty).record_handle action.request
    rcases eq_or_ne v action.validator with rfl | different
    · exact acting
    · -- The vote the acting validator holds is its own.
      refine (honest v notFaulty).record_other different ?_
      intro vote held
      exact (acting.pending vote (by rw [managers_record_self]; exact held)).2

theorem honest_run (honest : ∀ v ∉ faulty, Honest network v) (actions : List (Action B V)) :
    ∀ v ∉ faulty, Honest (network.run committee faulty actions) v := by
  induction actions generalizing network with
  | nil => exact honest
  | cons action rest ih => exact ih (honest_step honest action)

/-- Two confirmed blocks share a validator that follows the protocol, which holds one vote:
they are the same. -/
theorem confirmed_unique (fits : committee.Fits)
    (fewFaulty : ∑ v ∈ faulty, committee.votingRights v < committee.validityThreshold.toNat)
    (honest : ∀ v ∉ faulty, Honest network v) {block block' : B} {round round' : Nat}
    (first : Certified committee faulty network (.confirmedBlock block) round)
    (second : Certified committee faulty network (.confirmedBlock block') round') :
    block = block' := by
  obtain ⟨v, notFaulty, firstSent, secondSent⟩ := exists_honest_signer fits fewFaulty first second
  have held := (honest v notFaulty).confirmedPending block round firstSent
  rw [(honest v notFaulty).confirmedPending block' round' secondSent] at held
  simp only [Option.some.injEq, Vote.mk.injEq, CertificateValue.confirmedBlock.injEq] at held
  exact held.1.symm

end Honest

end SingleOwnerNetwork

section Agreement

variable {B V : Type} [DecidableEq B] [DecidableEq V]

/-- On a chain with several owners and on a chain with a single owner, after any requests
to the validators in any order, two confirmed block certificates that pass their check hold
the same block, when the votes of the committee fit in `u64` arithmetic and the faulty
validators weigh less than the validity threshold. -/
theorem confirmed_certificates_agree (committee : Committee V) (faulty : Finset V)
    (fits : committee.Fits)
    (fewFaulty : ∑ v ∈ faulty, committee.votingRights v < committee.validityThreshold.toNat)
    (multiLeaderRounds start : Nat) (actions : List (Action B V))
    (first second : Certificate B V) (block block' : B)
    (firstConfirmed : first.value = .confirmedBlock block)
    (secondConfirmed : second.value = .confirmedBlock block') :
    (first.check committee (((MultiOwnerNetwork.initial multiLeaderRounds start).run
          committee faulty actions).signed faulty) = .ok () →
      second.check committee (((MultiOwnerNetwork.initial multiLeaderRounds start).run
          committee faulty actions).signed faulty) = .ok () →
      block = block') ∧
    (first.check committee ((SingleOwnerNetwork.initial.run committee faulty actions).signed
          faulty) = .ok () →
      second.check committee ((SingleOwnerNetwork.initial.run committee faulty actions).signed
          faulty) = .ok () →
      block = block') := by
  constructor
  · intro firstChecked secondChecked
    have honest := MultiOwnerNetwork.honest_run
      (fun v _ => MultiOwnerNetwork.honest_initial committee faulty multiLeaderRounds start v) actions
    have firstCertified := certified_of_check firstChecked
    have secondCertified := certified_of_check secondChecked
    rw [firstConfirmed] at firstCertified
    rw [secondConfirmed] at secondCertified
    exact MultiOwnerNetwork.confirmed_unique fits fewFaulty honest firstCertified secondCertified
  · intro firstChecked secondChecked
    have honest : ∀ v ∉ faulty,
        SingleOwnerNetwork.Honest (SingleOwnerNetwork.initial.run committee faulty actions) v :=
      SingleOwnerNetwork.honest_run (fun v _ => SingleOwnerNetwork.honest_initial v) actions
    have firstCertified := certified_of_check firstChecked
    have secondCertified := certified_of_check secondChecked
    rw [firstConfirmed] at firstCertified
    rw [secondConfirmed] at secondCertified
    exact SingleOwnerNetwork.confirmed_unique fits fewFaulty honest firstCertified secondCertified

/-- Four validators of one vote each, of which validator 3 is faulty: three of them
receive a proposal of block 7 in round 0 and then its validated certificate, and the
certificate confirming block 7 checks on both kinds of chain. -/
theorem confirmed_certificates_agree_at_block_seven :
    let committee : Committee Nat := ⟨{0, 1, 2, 3}, fun _ => 1⟩
    let faulty : Finset Nat := {3}
    let proposal : BlockProposal Nat Nat := ⟨⟨7, 0⟩, none⟩
    let validated : Certificate Nat Nat := ⟨.validatedBlock 7, 0, [0, 1, 2]⟩
    let confirmed : Certificate Nat Nat := ⟨.confirmedBlock 7, 0, [0, 1, 2]⟩
    let actions : List (Action Nat Nat) :=
      [⟨0, .handleBlockProposal proposal, 0⟩, ⟨1, .handleBlockProposal proposal, 0⟩,
        ⟨2, .handleBlockProposal proposal, 0⟩, ⟨0, .processValidatedBlock validated, 0⟩,
        ⟨1, .processValidatedBlock validated, 0⟩, ⟨2, .processValidatedBlock validated, 0⟩]
    committee.Fits ∧
      ∑ v ∈ faulty, committee.votingRights v < committee.validityThreshold.toNat ∧
      confirmed.check committee
        (((MultiOwnerNetwork.initial 0 0).run committee faulty actions).signed faulty) = .ok () ∧
      confirmed.check committee
        ((SingleOwnerNetwork.initial.run committee faulty actions).signed faulty) = .ok () ∧
      ((confirmed.check committee
          (((MultiOwnerNetwork.initial 0 0).run committee faulty actions).signed faulty) = .ok () →
        confirmed.check committee
          (((MultiOwnerNetwork.initial 0 0).run committee faulty actions).signed faulty) = .ok () →
        7 = 7) ∧
      (confirmed.check committee
          ((SingleOwnerNetwork.initial.run committee faulty actions).signed faulty) = .ok () →
        confirmed.check committee
          ((SingleOwnerNetwork.initial.run committee faulty actions).signed faulty) = .ok () →
        7 = 7)) := by
  intro committee faulty proposal validated confirmed actions
  have fits : committee.Fits := by decide
  have fewFaulty : ∑ v ∈ faulty, committee.votingRights v < committee.validityThreshold.toNat := by
    decide
  have multiChecked : confirmed.check committee
      (((MultiOwnerNetwork.initial 0 0).run committee faulty actions).signed faulty) = .ok () := by
    decide
  have singleChecked : confirmed.check committee
      ((SingleOwnerNetwork.initial.run committee faulty actions).signed faulty) = .ok () := by
    decide
  exact ⟨fits, fewFaulty, multiChecked, singleChecked,
    confirmed_certificates_agree committee faulty fits fewFaulty 0 0 actions confirmed confirmed 7 7
      rfl rfl⟩

/-- Votes of `2 ^ 63 - 1` and `1` add up to `2 ^ 63`, which `2 * total_votes` wraps to
`0`: the quorum threshold is `1`, and each validator alone certifies. No validator is
faulty. On a chain with several owners the first validates and confirms block 7 in round
0 and the second block 8; on a chain with a single owner each confirms its own proposal.
Both confirmed block certificates check. -/
theorem confirmed_certificates_disagree_when_votes_wrap :
    let committee : Committee Nat := ⟨{0, 1}, fun v => if v = 0 then 9223372036854775807 else 1⟩
    let faulty : Finset Nat := ∅
    let proposals : List (Action Nat Nat) :=
      [⟨0, .handleBlockProposal ⟨⟨7, 0⟩, none⟩, 0⟩, ⟨1, .handleBlockProposal ⟨⟨8, 0⟩, none⟩, 0⟩]
    let validations : List (Action Nat Nat) :=
      [⟨0, .processValidatedBlock ⟨.validatedBlock 7, 0, [0]⟩, 0⟩,
        ⟨1, .processValidatedBlock ⟨.validatedBlock 8, 0, [1]⟩, 0⟩]
    let multi := (MultiOwnerNetwork.initial 0 0).run committee faulty (proposals ++ validations)
    let single := SingleOwnerNetwork.initial.run committee faulty proposals
    let first : Certificate Nat Nat := ⟨.confirmedBlock 7, 0, [0]⟩
    let second : Certificate Nat Nat := ⟨.confirmedBlock 8, 0, [1]⟩
    committee.quorumThreshold = 1 ∧
      ∑ v ∈ faulty, committee.votingRights v < committee.validityThreshold.toNat ∧
      first.check committee (multi.signed faulty) = .ok () ∧
      second.check committee (multi.signed faulty) = .ok () ∧
      first.check committee (single.signed faulty) = .ok () ∧
      second.check committee (single.signed faulty) = .ok () := by
  decide

end Agreement

end Linera.Core
