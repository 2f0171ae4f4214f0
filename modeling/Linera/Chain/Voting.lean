import Linera.Chain.Manager

set_option autoImplicit false

/-! The voting discipline of one `MultiOwnerManager` (`linera-chain/src/manager/multi.rs`).

A worker drives its manager through four requests: a proposal goes to
`check_proposed_block` and, on `Accept`, to `create_vote`; a validated block certificate
goes to `check_validated_block` and, on `Accept`, to `create_final_vote`; a timeout
certificate goes to `handle_timeout_certificate`; and the clock to `vote_leader_timeout`.

Along every run from `MultiOwnerManager::new`, the leader timeout, the lock, the proposal
and the pending vote only move to later rounds, so the current round never decreases.
Once the pending vote confirms a block in round `s`, every proposal accepted later is in
a round `r > s`, and the highest certificate it is checked against, carried by the
proposal or locked, validates its block in a round `t` with `s ≤ t < r`. The certificate
need not be carried by the proposal itself: a lock taken from an earlier proposal is
enough. -/

namespace Linera.Chain.Manager

/-- An optional value that, once present, stays present in a round that does not
decrease. -/
def RoundAdvances {α : Type} (round : α → Nat) (earlier later : Option α) : Prop :=
  ∀ x, earlier = some x → ∃ y, later = some y ∧ round x ≤ round y

namespace RoundAdvances

variable {α : Type} {round : α → Nat}

theorem refl (value : Option α) : RoundAdvances round value value :=
  fun x found => ⟨x, found, le_rfl⟩

theorem trans {first second third : Option α} (before : RoundAdvances round first second)
    (after : RoundAdvances round second third) : RoundAdvances round first third := by
  intro x found
  obtain ⟨y, foundY, le⟩ := before x found
  obtain ⟨z, foundZ, le'⟩ := after y foundY
  exact ⟨z, foundZ, le.trans le'⟩

theorem of_eq {earlier later : Option α} (same : later = earlier) :
    RoundAdvances round earlier later := by
  rw [same]
  exact refl earlier

theorem of_some {earlier : Option α} {y : α} (later : ∀ x, earlier = some x → round x ≤ round y) :
    RoundAdvances round earlier (some y) :=
  fun x found => ⟨y, rfl, later x found⟩

end RoundAdvances

/-- A worker's request of the manager of one chain at one height. -/
inductive ManagerStep (B V : Type) where
  | proposal (proposal : BlockProposal B V) (now : Nat)
  | validatedBlock (certificate : Certificate B V) (now : Nat)
  | timeoutCertificate (certificate : Certificate B V) (now : Nat)
  | leaderTimeout (now : Nat)
  deriving DecidableEq, Repr

namespace MultiOwnerManager

variable {B V : Type}

/-- The leader timeout round that `current_round` counts: the round after the
certificate's, saturating at `RoundNumber::MAX`. -/
def timeoutRound (round : Nat) : Nat :=
  match roundTryAddOne round with
  | .ok next => next
  | .error () => roundMax

theorem timeoutRound_mono {round round' : Nat} (le : round ≤ round') :
    timeoutRound round ≤ timeoutRound round' := by
  unfold timeoutRound roundTryAddOne
  split_ifs <;> simp <;> omega

theorem currentRound_eq (manager : MultiOwnerManager B V) :
    manager.currentRound = ([manager.leaderTimeout.map (timeoutRound ·.round),
      manager.locked.map (·.round), manager.proposed.map (·.content.round)].reduceOption.max?).getD 0 :=
  rfl

theorem max?_getD_le {rounds : List Nat} {bound : Nat} (below : ∀ round ∈ rounds, round ≤ bound) :
    rounds.max?.getD 0 ≤ bound := by
  rcases found : rounds.max? with _ | greatest
  · exact Nat.zero_le _
  · exact below greatest (List.max?_mem found)

theorem le_currentRound_of_leaderTimeout {manager : MultiOwnerManager B V}
    {certificate : Certificate B V} (timedOut : manager.leaderTimeout = some certificate) :
    timeoutRound certificate.round ≤ manager.currentRound := by
  rw [currentRound_eq]
  apply le_max?_getD
  rw [List.reduceOption_mem_iff]
  simp [timedOut]

/-- The current round never decreases while the leader timeout, the lock and the proposal
move only to later rounds. -/
theorem currentRound_le_currentRound {earlier later : MultiOwnerManager B V}
    (timeoutLe : RoundAdvances (·.round) earlier.leaderTimeout later.leaderTimeout)
    (lockedLe : RoundAdvances (·.round) earlier.locked later.locked)
    (proposedLe : RoundAdvances (·.content.round) earlier.proposed later.proposed) :
    earlier.currentRound ≤ later.currentRound := by
  rw [currentRound_eq earlier]
  apply max?_getD_le
  intro round mem
  rw [List.reduceOption_mem_iff] at mem
  simp only [List.mem_cons, List.not_mem_nil, or_false] at mem
  -- Each round of the earlier manager is bounded by the same field of the later one.
  rcases mem with mem | mem | mem
  · obtain ⟨certificate, found, rfl⟩ := Option.map_eq_some_iff.mp mem.symm
    obtain ⟨certificate', found', le⟩ := timeoutLe certificate found
    exact (timeoutRound_mono le).trans (le_currentRound_of_leaderTimeout found')
  · obtain ⟨certificate, found, rfl⟩ := Option.map_eq_some_iff.mp mem.symm
    obtain ⟨certificate', found', le⟩ := lockedLe certificate found
    exact le.trans (le_currentRound_of_locked found')
  · obtain ⟨proposal, found, rfl⟩ := Option.map_eq_some_iff.mp mem.symm
    obtain ⟨proposal', found', le⟩ := proposedLe proposal found
    exact le.trans (le_currentRound_of_proposed found')

theorem currentRound_le_of_expectedRound {manager : MultiOwnerManager B V}
    {validated : Option (Certificate B V)} {expected : Nat}
    (computed : manager.expectedRound validated = .ok expected) : manager.currentRound ≤ expected := by
  unfold expectedRound at computed
  rcases validated with _ | certificate
  · cases computed
    exact le_rfl
  · dsimp only at computed
    split at computed
    · cases computed
      exact le_max_right _ _
    · cases computed

theorem le_of_checkRound {multiLeaderRounds expected round : Nat}
    (checked : checkRound multiLeaderRounds expected round = .ok ()) : expected ≤ round := by
  unfold checkRound at checked
  split_ifs at checked with leaderRotation different notBelow <;> omega

theorem currentRound_le_of_checkProposedBlock [DecidableEq B] {manager : MultiOwnerManager B V}
    {proposal : BlockProposal B V} (accepted : manager.checkProposedBlock proposal = .ok .accept) :
    manager.currentRound ≤ proposal.content.round := by
  unfold checkProposedBlock at accepted
  obtain ⟨⟨⟩, -, accepted⟩ := (Except.bind_eq_ok_iff _ _ _).mp accepted
  obtain ⟨expected, computed, accepted⟩ := (Except.bind_eq_ok_iff _ _ _).mp accepted
  obtain ⟨⟨⟩, checked, -⟩ := (Except.bind_eq_ok_iff _ _ _).mp accepted
  exact (currentRound_le_of_expectedRound computed).trans (le_of_checkRound checked)

variable [DecidableEq B]

/-- One request of the worker: `create_vote` and `create_final_vote` only on `Accept`. -/
def step (keyPair : Option V) (manager : MultiOwnerManager B V) : ManagerStep B V →
    MultiOwnerManager B V
  | .proposal proposal now =>
      match manager.checkProposedBlock proposal with
      | .ok .accept => manager.createVote proposal keyPair now
      | _ => manager
  | .validatedBlock certificate now =>
      match manager.checkValidatedBlock certificate with
      | .ok .accept => manager.createFinalVote certificate keyPair now
      | _ => manager
  | .timeoutCertificate certificate now => manager.handleTimeoutCertificate certificate now
  | .leaderTimeout now => (manager.voteLeaderTimeout keyPair now).1

def run (keyPair : Option V) (manager : MultiOwnerManager B V) (steps : List (ManagerStep B V)) :
    MultiOwnerManager B V :=
  steps.foldl (step keyPair) manager

/-- What never decreases from a manager to a later one. -/
structure Advances (earlier later : MultiOwnerManager B V) : Prop where
  leaderTimeout : RoundAdvances (·.round) earlier.leaderTimeout later.leaderTimeout
  locked : RoundAdvances (·.round) earlier.locked later.locked
  proposed : RoundAdvances (·.content.round) earlier.proposed later.proposed
  pending : RoundAdvances (·.round) earlier.pending later.pending

namespace Advances

omit [DecidableEq B] in
theorem refl (manager : MultiOwnerManager B V) : Advances manager manager :=
  ⟨.refl _, .refl _, .refl _, .refl _⟩

omit [DecidableEq B] in
theorem trans {first second third : MultiOwnerManager B V} (before : Advances first second)
    (after : Advances second third) : Advances first third :=
  ⟨before.leaderTimeout.trans after.leaderTimeout, before.locked.trans after.locked,
    before.proposed.trans after.proposed, before.pending.trans after.pending⟩

omit [DecidableEq B] in
theorem currentRound_le {earlier later : MultiOwnerManager B V} (advances : Advances earlier later) :
    earlier.currentRound ≤ later.currentRound :=
  currentRound_le_currentRound advances.leaderTimeout advances.locked advances.proposed

end Advances

/-- What a manager driven by its worker keeps. -/
structure Disciplined (manager : MultiOwnerManager B V) : Prop where
  /-- The pending vote is not after the current round. -/
  pendingBelow : ∀ vote, manager.pending = some vote → vote.round ≤ manager.currentRound
  /-- A pending vote to confirm comes with a lock from its round or a later one. -/
  confirmedLocked : ∀ block round validator,
    manager.pending = some ⟨.confirmedBlock block, round, validator⟩ →
    ∃ locked, manager.locked = some locked ∧ round ≤ locked.round
  /-- The lock is a validated block certificate. -/
  lockedValidated : ∀ locked, manager.locked = some locked → locked.value.isValidated = true

omit [DecidableEq B] in
theorem disciplined_new (multiLeaderRounds now : Nat) :
    Disciplined (new multiLeaderRounds now : MultiOwnerManager B V) where
  pendingBelow := by simp [new]
  confirmedLocked := by simp [new]
  lockedValidated := by simp [new]

omit [DecidableEq B] in
theorem Disciplined.of_keeps {manager next : MultiOwnerManager B V}
    (disciplined : Disciplined manager) (advances : Advances manager next)
    (pendingEq : next.pending = manager.pending) (lockedEq : next.locked = manager.locked) :
    Disciplined next where
  pendingBelow vote held := by
    rw [pendingEq] at held
    exact (disciplined.pendingBelow vote held).trans advances.currentRound_le
  confirmedLocked block round validator held := by
    rw [pendingEq] at held
    rw [lockedEq]
    exact disciplined.confirmedLocked block round validator held
  lockedValidated locked found := by
    rw [lockedEq] at found
    exact disciplined.lockedValidated locked found

section Steps

variable {keyPair : Option V} {manager : MultiOwnerManager B V}

theorem Disciplined.createVote {proposal : BlockProposal B V} {now : Nat}
    (disciplined : Disciplined manager)
    (accepted : manager.checkProposedBlock proposal = .ok .accept) :
    Advances manager (manager.createVote proposal keyPair now) ∧
      Disciplined (manager.createVote proposal keyPair now) := by
  obtain ⟨proposedEq, -, leaderEq, pendingEq, lockedCases⟩ :=
    manager.createVote_spec proposal keyPair now
  obtain ⟨validatedOk, later, -⟩ := checkProposedBlock_eq_accept accepted
  have current := currentRound_le_of_checkProposedBlock accepted
  have lockedLe : RoundAdvances (·.round) manager.locked
      (manager.createVote proposal keyPair now).locked := by
    rcases lockedCases with same | ⟨validated, -, lockedEq, newer⟩
    · exact .of_eq same
    · rw [lockedEq]
      exact .of_some fun locked found => (newer locked found).le
  have advances : Advances manager (manager.createVote proposal keyPair now) := by
    refine ⟨.of_eq leaderEq, lockedLe, ?_, ?_⟩
    · rw [proposedEq]
      exact .of_some fun old found => (later old found).le
    · rw [pendingEq]
      rcases keyPair with _ | validator
      · exact .refl _
      · -- The held vote is not after the current round, which the proposal reaches.
        exact .of_some fun vote held => (disciplined.pendingBelow vote held).trans current
  refine ⟨advances, ⟨?_, ?_, ?_⟩⟩
  · intro vote held
    rw [pendingEq] at held
    rcases keyPair with _ | validator
    · exact (disciplined.pendingBelow vote held).trans advances.currentRound_le
    · cases held
      exact le_currentRound_of_proposed proposedEq
  · intro block round validator held
    rw [pendingEq] at held
    rcases keyPair with _ | validator'
    · obtain ⟨locked, found, below⟩ := disciplined.confirmedLocked block round validator held
      obtain ⟨locked', found', le⟩ := lockedLe locked found
      exact ⟨locked', found', below.trans le⟩
    · cases held
  · intro locked found
    rcases lockedCases with same | ⟨validated, carried, lockedEq, -⟩
    · rw [same] at found
      exact disciplined.lockedValidated locked found
    · rw [lockedEq] at found
      cases found
      exact isValidated_of_checkValidatedValue validatedOk locked carried

theorem Disciplined.createFinalVote {certificate : Certificate B V} {now : Nat}
    (disciplined : Disciplined manager)
    (accepted : manager.checkValidatedBlock certificate = .ok .accept) :
    Advances manager (manager.createFinalVote certificate keyPair now) ∧
      Disciplined (manager.createFinalVote certificate keyPair now) := by
  rcases manager.createFinalVote_spec certificate keyPair now with
    unchanged | ⟨current, block, value, proposedEq, lockedEq, -, leaderEq, pendingEq⟩
  · rw [unchanged]
    exact ⟨.refl _, disciplined⟩
  have newer := checkValidatedBlock_eq_accept accepted
  have advances : Advances manager (manager.createFinalVote certificate keyPair now) := by
    refine ⟨.of_eq leaderEq, ?_, .of_eq proposedEq, ?_⟩
    · rw [lockedEq]
      exact .of_some fun locked found => (newer locked found).le
    · rw [pendingEq]
      rcases keyPair with _ | validator
      · exact .refl _
      · -- A validator votes only from the current round on.
        exact .of_some fun vote held =>
          (disciplined.pendingBelow vote held).trans (current rfl)
  refine ⟨advances, ⟨?_, ?_, ?_⟩⟩
  · intro vote held
    rw [pendingEq] at held
    rcases keyPair with _ | validator
    · exact (disciplined.pendingBelow vote held).trans advances.currentRound_le
    · cases held
      exact le_currentRound_of_locked lockedEq
  · intro block' round validator held
    refine ⟨certificate, lockedEq, ?_⟩
    rw [pendingEq] at held
    rcases keyPair with _ | validator'
    · obtain ⟨locked, found, below⟩ := disciplined.confirmedLocked block' round validator held
      exact below.trans (newer locked found).le
    · cases held
      exact le_rfl
  · intro locked found
    rw [lockedEq] at found
    cases found
    simp [value, CertificateValue.isValidated]

omit [DecidableEq B] in
theorem Disciplined.handleTimeoutCertificate {certificate : Certificate B V} {now : Nat}
    (disciplined : Disciplined manager) :
    Advances manager (manager.handleTimeoutCertificate certificate now) ∧
      Disciplined (manager.handleTimeoutCertificate certificate now) := by
  obtain ⟨proposedEq, lockedEq, pendingEq, -, leaderCases⟩ :=
    manager.handleTimeoutCertificate_votes certificate now
  have leaderLe : RoundAdvances (·.round) manager.leaderTimeout
      (manager.handleTimeoutCertificate certificate now).leaderTimeout := by
    rcases leaderCases with same | ⟨leaderEq, newer⟩
    · exact .of_eq same
    · rw [leaderEq]
      exact .of_some fun known found => (newer known found).le
  have advances : Advances manager (manager.handleTimeoutCertificate certificate now) :=
    ⟨leaderLe, .of_eq lockedEq, .of_eq proposedEq, .of_eq pendingEq⟩
  exact ⟨advances, disciplined.of_keeps advances pendingEq lockedEq⟩

omit [DecidableEq B] in
theorem Disciplined.voteLeaderTimeout {now : Nat} (disciplined : Disciplined manager) :
    Advances manager (manager.voteLeaderTimeout keyPair now).1 ∧
      Disciplined (manager.voteLeaderTimeout keyPair now).1 := by
  obtain ⟨proposedEq, lockedEq, pendingEq, -, leaderEq⟩ := manager.voteLeaderTimeout_votes keyPair now
  have advances : Advances manager (manager.voteLeaderTimeout keyPair now).1 :=
    ⟨.of_eq leaderEq, .of_eq lockedEq, .of_eq proposedEq, .of_eq pendingEq⟩
  exact ⟨advances, disciplined.of_keeps advances pendingEq lockedEq⟩

theorem Disciplined.step (disciplined : Disciplined manager) (request : ManagerStep B V) :
    Advances manager (step keyPair manager request) ∧
      Disciplined (step keyPair manager request) := by
  cases request with
  | proposal proposal now =>
      dsimp only [MultiOwnerManager.step]
      split
      · rename_i accepted
        exact disciplined.createVote accepted
      · exact ⟨.refl _, disciplined⟩
  | validatedBlock certificate now =>
      dsimp only [MultiOwnerManager.step]
      split
      · rename_i accepted
        exact disciplined.createFinalVote accepted
      · exact ⟨.refl _, disciplined⟩
  | timeoutCertificate certificate now => exact disciplined.handleTimeoutCertificate
  | leaderTimeout now => exact disciplined.voteLeaderTimeout

end Steps

/-- Every run advances the manager and keeps the discipline. -/
theorem Disciplined.run {keyPair : Option V} {manager : MultiOwnerManager B V}
    (disciplined : Disciplined manager) (steps : List (ManagerStep B V)) :
    Advances manager (run keyPair manager steps) ∧ Disciplined (run keyPair manager steps) := by
  induction steps generalizing manager with
  | nil => exact ⟨.refl _, disciplined⟩
  | cons request rest ih =>
      have stepped : Advances manager (MultiOwnerManager.step keyPair manager request) ∧
          Disciplined (MultiOwnerManager.step keyPair manager request) := disciplined.step request
      obtain ⟨first, next⟩ := stepped
      obtain ⟨later, last⟩ := ih next
      exact ⟨first.trans later, last⟩

/-- After a vote to confirm in round `s`, a proposal accepted in a later manager is in a
round `r > s`, and the highest of the proposal's certificate and the lock, which
`check_proposed_block` checks it against, validates its block in a round `t` with
`s ≤ t < r`. -/
theorem justified_of_confirmed {earlier later : MultiOwnerManager B V}
    (disciplined : Disciplined earlier) (advances : Advances earlier later)
    (laterDisciplined : Disciplined later) {block : B} {round : Nat} {validator : V}
    (confirmed : earlier.pending = some ⟨.confirmedBlock block, round, validator⟩)
    {proposal : BlockProposal B V} (accepted : later.checkProposedBlock proposal = .ok .accept) :
    round < proposal.content.round ∧
      ∃ certificate, highestCertificate proposal.validated later.locked = some certificate ∧
        (proposal.validated = some certificate ∨ later.locked = some certificate) ∧
        certificate.value = .validatedBlock proposal.content.block ∧
        round ≤ certificate.round ∧ certificate.round < proposal.content.round := by
  obtain ⟨locked, found, below⟩ := disciplined.confirmedLocked block round validator confirmed
  obtain ⟨locked', found', le⟩ := advances.locked locked found
  dsimp only at le
  obtain ⟨validatedOk, -, lockOk⟩ := checkProposedBlock_eq_accept accepted
  obtain ⟨highest, highestEq, lockedLe, -⟩ :=
    @highestCertificate_of_locked B V proposal.validated locked'
  rw [← found'] at highestEq
  rw [highestEq] at lockOk
  obtain ⟨before, highestBlock⟩ := checkLockedBlock_eq_ok lockOk highest rfl
  -- The highest certificate is the proposal's or the lock, either a validated block.
  have carried := mem_highestCertificate highestEq
  have validated : highest.value.isValidated = true := by
    rcases carried with carried | locked
    · exact isValidated_of_checkValidatedValue validatedOk highest carried
    · exact laterDisciplined.lockedValidated highest locked
  obtain ⟨block', value⟩ := CertificateValue.exists_of_isValidated validated
  rw [value] at highestBlock
  cases highestBlock
  refine ⟨by omega, highest, highestEq, carried, value, by omega, before⟩

/-- Along every run from `MultiOwnerManager::new`, the current round, the round of the
pending vote and the round of the lock never decrease; and after a vote to confirm a block
in round `s`, every proposal accepted later, on which a validator votes to validate its
block, is in a round `r > s`, and the highest of the proposal's certificate and the lock is
a validated block certificate for its block in a round `t` with `s ≤ t < r`. -/
theorem multiOwnerManager_voting_discipline (keyPair : Option V) (multiLeaderRounds now : Nat)
    (before after : List (ManagerStep B V)) :
    let earlier := run keyPair (new multiLeaderRounds now) before
    let later := run keyPair earlier after
    earlier.currentRound ≤ later.currentRound ∧
      (∀ vote, earlier.pending = some vote →
        ∃ vote', later.pending = some vote' ∧ vote.round ≤ vote'.round) ∧
      (∀ block round validator (proposal : BlockProposal B V),
        earlier.pending = some ⟨.confirmedBlock block, round, validator⟩ →
        later.checkProposedBlock proposal = .ok .accept →
        round < proposal.content.round ∧
          ∃ certificate, highestCertificate proposal.validated later.locked = some certificate ∧
            (proposal.validated = some certificate ∨ later.locked = some certificate) ∧
            certificate.value = .validatedBlock proposal.content.block ∧
            round ≤ certificate.round ∧ certificate.round < proposal.content.round) ∧
      (∀ locked, earlier.locked = some locked →
        ∃ locked', later.locked = some locked' ∧ locked.round ≤ locked'.round) := by
  intro earlier later
  have initial : Disciplined (new multiLeaderRounds now : MultiOwnerManager B V) :=
    disciplined_new multiLeaderRounds now
  have reached : Advances _ earlier ∧ Disciplined earlier := initial.run before
  obtain ⟨-, disciplined⟩ := reached
  have continued : Advances earlier later ∧ Disciplined later := disciplined.run after
  obtain ⟨advances, laterDisciplined⟩ := continued
  refine ⟨advances.currentRound_le, advances.pending, ?_, advances.locked⟩
  intro block round validator proposal confirmed accepted
  exact justified_of_confirmed disciplined advances laterDisciplined confirmed accepted

/-- After confirming block 0 in round 0, the manager accepts a proposal of block 1 in
round 2 that carries a validated certificate for block 1 from round 1, and locks that
certificate; it then accepts a proposal of block 1 in round 3 that carries no certificate
and votes to validate it. -/
theorem validated_vote_without_certificate_after_confirmation :
    let earlier : MultiOwnerManager Nat Nat :=
      run (some 0) (new 3 0) [.validatedBlock ⟨.validatedBlock 0, 0, [0, 1, 2]⟩ 0]
    let later := run (some 0) earlier
      [.proposal ⟨⟨1, 2⟩, some ⟨.validatedBlock 1, 1, [0, 1, 2]⟩⟩ 0]
    let proposal : BlockProposal Nat Nat := ⟨⟨1, 3⟩, none⟩
    earlier.pending = some ⟨.confirmedBlock 0, 0, 0⟩ ∧
      later.checkProposedBlock proposal = .ok .accept ∧
      (step (some 0) later (.proposal proposal 0)).pending = some ⟨.validatedBlock 1, 3, 0⟩ ∧
      proposal.validated = none := by
  decide

end MultiOwnerManager

end Linera.Chain.Manager
