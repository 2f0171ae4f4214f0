import Mathlib
import Linera.Lib.Except
import Linera.Lib.Quorum

set_option autoImplicit false

/-! The chain managers of one chain at one height (`linera-chain/src/manager`).

A `MultiOwnerManager` decides what a validator signs for the next block of a chain with
several owners: it votes to validate a proposal (`create_vote`) when the proposal passes
`check_proposed_block`, and to confirm a validated block (`create_final_vote`) when the
certificate passes `check_validated_block`. Leader timeouts move to later rounds. A
`SingleOwnerManager` votes to confirm the first proposal of its owner, in round 0.

Blocks are an abstract type `B`, and the chain, height and epoch are fixed, so a leader
timeout value carries nothing. Rounds are `RoundNumber`, a `u32`; timestamps are
microseconds in a `u64`. The types are those of the managers' view of a block; the
cross-chain view of a certificate is in `Linera.Chain`. -/

namespace Linera.Chain.Manager

def roundMax : Nat := 2 ^ 32 - 1

def roundTryAddOne (round : Nat) : Except Unit Nat :=
  if round < roundMax then .ok (round + 1) else .error ()

def roundTrySubOne (round : Nat) : Except Unit Nat :=
  if round = 0 then .error () else .ok (round - 1)

/-- `CertificateValue`, for the fixed chain, height and epoch. -/
inductive CertificateValue (B : Type) where
  | validatedBlock (block : B)
  | confirmedBlock (block : B)
  | leaderTimeout
  deriving DecidableEq, Repr

namespace CertificateValue

variable {B : Type}

def block : CertificateValue B → Option B
  | validatedBlock block => some block
  | confirmedBlock block => some block
  | leaderTimeout => none

def isValidated : CertificateValue B → Bool
  | validatedBlock _ => true
  | _ => false

theorem exists_of_isValidated {value : CertificateValue B} (validated : value.isValidated = true) :
    ∃ block, value = validatedBlock block := by
  cases value with
  | validatedBlock block => exact ⟨block, rfl⟩
  | confirmedBlock => cases validated
  | leaderTimeout => cases validated

def isTimeout : CertificateValue B → Bool
  | leaderTimeout => true
  | _ => false

/-- `HashedValue::into_confirmed`: the confirmation of a validated block. -/
def intoConfirmed : CertificateValue B → Option (CertificateValue B)
  | validatedBlock block => some (confirmedBlock block)
  | _ => none

end CertificateValue

/-- `Certificate`: a value, the round it was signed in, and the validators whose
signatures it carries. -/
structure Certificate (B V : Type) where
  value : CertificateValue B
  round : Nat
  signatures : List V
  deriving DecidableEq, Repr

/-- `Vote`: a value, a round and the validator that signs them. -/
structure Vote (B V : Type) where
  value : CertificateValue B
  round : Nat
  validator : V
  deriving DecidableEq, Repr

structure BlockAndRound (B : Type) where
  block : B
  round : Nat
  deriving DecidableEq, Repr

/-- `BlockProposal`, without its owner, signature and blobs. -/
structure BlockProposal (B V : Type) where
  content : BlockAndRound B
  validated : Option (Certificate B V)
  deriving DecidableEq, Repr

/-- `ChainError`, as the managers and the signature checks raise it. -/
inductive ChainError where
  /-- `CryptoError`: a signature that does not check. -/
  | cryptoError
  | invalidBlockProposal
  | wrongRound (round : Nat)
  | insufficientRound (round : Nat)
  /-- `HasLockedBlock`, with the round of the locked certificate. -/
  | hasLockedBlock (round : Nat)
  | internalError (message : String)
  | arithmeticError
  | previousBlockMustBeConfirmedFirst
  | certificateValidatorReuse
  | invalidSigner
  | certificateRequiresQuorum
  | certificateSignatureVerificationFailed
  deriving DecidableEq, Repr

/-- `Committee`: the validators and their votes, which are `u64`. -/
structure Committee (V : Type) where
  validators : Finset V
  votes : V → UInt64

namespace Committee

variable {V : Type} [DecidableEq V]

/-- `Committee::weight`: the votes of a validator, none for anyone else. -/
def weight (committee : Committee V) (validator : V) : UInt64 :=
  if validator ∈ committee.validators then committee.votes validator else 0

/-- The weight of a validator as a number: what quorums add up. -/
def votingRights (committee : Committee V) (validator : V) : Nat :=
  (committee.weight validator).toNat

omit [DecidableEq V] in
/-- `total_votes`: the fold of `Committee::new`, in `u64` arithmetic without checks. -/
def totalVotes (committee : Committee V) : UInt64 := ∑ v ∈ committee.validators, committee.votes v

omit [DecidableEq V] in
/-- `quorum_threshold`: `2 * total_votes / 3 + 1`, in `u64`. -/
def quorumThreshold (committee : Committee V) : UInt64 := 2 * committee.totalVotes / 3 + 1

omit [DecidableEq V] in
/-- `validity_threshold`: `(total_votes + 2) / 3`, in `u64`. -/
def validityThreshold (committee : Committee V) : UInt64 := (committee.totalVotes + 2) / 3

omit [DecidableEq V] in
/-- The votes add up, and so does twice their sum, without wrapping: `Committee::new` then
computes its thresholds as over the integers. -/
def Fits (committee : Committee V) : Prop :=
  2 * ∑ v ∈ committee.validators, (committee.votes v).toNat < 2 ^ 64

omit [DecidableEq V] in
instance (committee : Committee V) : Decidable committee.Fits :=
  inferInstanceAs (Decidable (2 * ∑ v ∈ committee.validators, (committee.votes v).toNat < 2 ^ 64))

/-- The loop of `check_signatures`: each signer once, each with voting rights; the
total weight of the signers, added up in `u64`. -/
def sumWeights (committee : Committee V) :
    List V → UInt64 → List V → Except ChainError UInt64
  | _, weight, [] => .ok weight
  | used, weight, validator :: rest =>
      if validator ∈ used then .error .certificateValidatorReuse
      else if committee.weight validator = 0 then .error .invalidSigner
      else sumWeights committee (validator :: used) (weight + committee.weight validator) rest

/-- `check_signatures`, with `signed` telling which validators really signed the value in
the round. -/
def checkSignatures (committee : Committee V) (signed : V → Bool)
    (signatures : List V) : Except ChainError Unit := do
  let weight ← committee.sumWeights [] 0 signatures
  if weight < committee.quorumThreshold then throw .certificateRequiresQuorum
  if !signatures.all signed then throw .certificateSignatureVerificationFailed

theorem sum_votingRights_validators (committee : Committee V) :
    ∑ v ∈ committee.validators, committee.votingRights v =
      ∑ v ∈ committee.validators, (committee.votes v).toNat :=
  Finset.sum_congr rfl fun v member => by simp [votingRights, weight, member]

theorem toNat_totalVotes {committee : Committee V} (fits : committee.Fits) :
    committee.totalVotes.toNat = ∑ v ∈ committee.validators, committee.votingRights v := by
  have below : ∑ v ∈ committee.validators, (committee.votes v).toNat < 2 ^ 64 := by
    unfold Fits at fits
    omega
  rw [totalVotes, Quorum.toNat_finsetSum, Nat.mod_eq_of_lt below, sum_votingRights_validators]

omit [DecidableEq V] in
theorem toNat_quorumThreshold {committee : Committee V} (fits : committee.Fits) :
    committee.quorumThreshold.toNat = 2 * committee.totalVotes.toNat / 3 + 1 := by
  classical
  have doubled : 2 * committee.totalVotes.toNat < 2 ^ 64 := by
    rw [toNat_totalVotes fits, sum_votingRights_validators]
    exact fits
  have below : 2 * committee.totalVotes.toNat / 3 + 1 < 2 ^ 64 := by omega
  simp only [quorumThreshold, UInt64.toNat_add, UInt64.toNat_div, UInt64.toNat_mul,
    UInt64.reduceToNat, Nat.mod_eq_of_lt doubled]
  exact Nat.mod_eq_of_lt below

omit [DecidableEq V] in
theorem toNat_validityThreshold {committee : Committee V} (fits : committee.Fits) :
    committee.validityThreshold.toNat = (committee.totalVotes.toNat + 2) / 3 := by
  classical
  have small : committee.totalVotes.toNat + 2 < 2 ^ 64 := by
    have doubled := fits
    rw [Fits, ← sum_votingRights_validators, ← toNat_totalVotes fits] at doubled
    have positive := committee.totalVotes.toNat_lt
    omega
  simp only [validityThreshold, UInt64.toNat_div, UInt64.toNat_add, UInt64.reduceToNat,
    Nat.mod_eq_of_lt small]

omit [DecidableEq V] in
/-- Two quorums overlap by more than the validity threshold: `N + ⌊(N + 2) / 3⌋ ≤
2 (⌊2 N / 3⌋ + 1)`. -/
theorem totalVotes_add_validityThreshold_le {committee : Committee V} (fits : committee.Fits) :
    committee.totalVotes.toNat + committee.validityThreshold.toNat ≤
      2 * committee.quorumThreshold.toNat := by
  rw [toNat_quorumThreshold fits, toNat_validityThreshold fits]
  omega

theorem sumWeights_eq_ok (committee : Committee V) (signatures used : List V) (weight total : UInt64)
    (summed : committee.sumWeights used weight signatures = .ok total) :
    signatures.Nodup ∧ (∀ v ∈ signatures, v ∉ used ∧ v ∈ committee.validators) ∧
      total = weight + (signatures.map committee.weight).sum := by
  induction signatures generalizing used weight with
  | nil =>
      cases summed
      simp
  | cons validator rest ih =>
      unfold sumWeights at summed
      split_ifs at summed with reused noRights
      obtain ⟨distinct, fresh, sum⟩ := ih _ _ summed
      have member : validator ∈ committee.validators := by
        by_contra outside
        exact noRights (by simp [Committee.weight, outside])
      refine ⟨List.nodup_cons.mpr ⟨fun mem => (fresh validator mem).1 List.mem_cons_self, distinct⟩,
        ?_, ?_⟩
      · intro v mem
        rcases List.mem_cons.mp mem with rfl | later
        · exact ⟨reused, member⟩
        · exact ⟨fun used => (fresh v later).1 (List.mem_cons_of_mem _ used), (fresh v later).2⟩
      · rw [sum, List.map_cons, List.sum_cons, UInt64.add_assoc]

theorem mem_validators_of_votingRights_pos {committee : Committee V} {validator : V}
    (positive : 0 < committee.votingRights validator) : validator ∈ committee.validators := by
  by_contra outside
  simp [votingRights, weight, outside] at positive

theorem toNat_sum_weight {committee : Committee V} (fits : committee.Fits) {signatures : List V}
    (distinct : signatures.Nodup) (members : ∀ v ∈ signatures, v ∈ committee.validators) :
    (signatures.map committee.weight).sum.toNat = (signatures.map committee.votingRights).sum := by
  have within : (signatures.map committee.votingRights).sum ≤ committee.totalVotes.toNat := by
    rw [toNat_totalVotes fits, ← List.sum_toFinset _ distinct]
    exact Finset.sum_le_sum_of_subset fun v mem => members v (List.mem_toFinset.mp mem)
  have below := committee.totalVotes.toNat_lt
  have numbers : signatures.map (UInt64.toNat ∘ committee.weight) =
      signatures.map committee.votingRights := rfl
  rw [Quorum.toNat_sum, List.map_map, numbers]
  exact Nat.mod_eq_of_lt (by omega)

/-- The signers of a certificate that passes `check_signatures`, when the votes fit:
validators of the committee, all of whom signed, weighing a quorum. -/
theorem checkSignatures_eq_ok {committee : Committee V} (fits : committee.Fits) (signed : V → Bool)
    (signatures : List V) (checked : committee.checkSignatures signed signatures = .ok ()) :
    ∃ signers : Finset V, signers ⊆ committee.validators ∧
      committee.quorumThreshold.toNat ≤ ∑ v ∈ signers, committee.votingRights v ∧
      ∀ v ∈ signers, signed v = true := by
  unfold checkSignatures at checked
  rcases summed : committee.sumWeights [] 0 signatures with fault | total
  · simp [summed] at checked
  obtain ⟨distinct, members, sum⟩ := committee.sumWeights_eq_ok signatures [] 0 total summed
  have reached : committee.quorumThreshold ≤ total := by
    by_contra below
    simp [summed, UInt64.not_le.mp below] at checked
  have allSigned : signatures.all signed = true := by
    simpa [summed, UInt64.not_lt.mpr reached] using checked
  have weighed : total.toNat = ∑ v ∈ signatures.toFinset, committee.votingRights v := by
    rw [sum, UInt64.zero_add, toNat_sum_weight fits distinct fun v mem => (members v mem).2,
      List.sum_toFinset _ distinct]
  refine ⟨signatures.toFinset, fun v mem => (members v (List.mem_toFinset.mp mem)).2, ?_, ?_⟩
  · rw [← weighed]
    exact UInt64.le_iff_toNat_le.mp reached
  · intro v mem
    exact List.all_eq_true.mp allSigned v (List.mem_toFinset.mp mem)

theorem checkSignatures_mono (committee : Committee V) {signed signed' : V → Bool}
    (more : ∀ v, signed v = true → signed' v = true) (signatures : List V)
    (checked : committee.checkSignatures signed signatures = .ok ()) :
    committee.checkSignatures signed' signatures = .ok () := by
  unfold checkSignatures at checked ⊢
  rcases summed : committee.sumWeights [] 0 signatures with fault | total
  · simp [summed] at checked
  have reached : committee.quorumThreshold ≤ total := by
    by_contra below
    simp [summed, UInt64.not_le.mp below] at checked
  have before : signatures.all signed = true := by
    simpa [summed, UInt64.not_lt.mpr reached] using checked
  have after : signatures.all signed' = true :=
    List.all_eq_true.mpr fun v mem => more v (List.all_eq_true.mp before v mem)
  simp [UInt64.not_lt.mpr reached, after]

end Committee

inductive Outcome where
  | accept
  | skip
  deriving DecidableEq, Repr

/-- `TIMEOUT`, ten seconds, in microseconds. -/
def timeoutMicros : Nat := 10000000

/-- `Timestamp::saturating_add`, on `u64` microseconds. -/
def timestampSaturatingAdd (now micros : Nat) : Nat := min (now + micros) (2 ^ 64 - 1)

/-- `MultiOwnerManager`, without the owners' keys and the leader distribution, which only
`verify_owner` reads. -/
structure MultiOwnerManager (B V : Type) where
  multiLeaderRounds : Nat
  proposed : Option (BlockProposal B V)
  locked : Option (Certificate B V)
  leaderTimeout : Option (Certificate B V)
  pending : Option (Vote B V)
  timeoutVote : Option (Vote B V)
  roundTimeout : Nat

namespace MultiOwnerManager

variable {B V : Type}

def new (multiLeaderRounds now : Nat) : MultiOwnerManager B V :=
  ⟨multiLeaderRounds, none, none, none, none, none, timestampSaturatingAdd now timeoutMicros⟩

/-- `current_round`: the round after the latest leader timeout, or the round of the
locked certificate or of the proposal, whichever is highest. -/
def currentRound (manager : MultiOwnerManager B V) : Nat :=
  let timeoutRound := manager.leaderTimeout.map fun certificate =>
    match roundTryAddOne certificate.round with
    | .ok round => round
    | .error () => roundMax
  let lockedRound := manager.locked.map (·.round)
  let proposedRound := manager.proposed.map (·.content.round)
  ([timeoutRound, lockedRound, proposedRound].reduceOption.max?).getD 0

/-- `update_timeout`: resets the timer if `round` has just ended. -/
def updateTimeout (manager : MultiOwnerManager B V) (round now : Nat) : MultiOwnerManager B V :=
  if manager.currentRound ≤ round then
    let factor := min (round + 2) roundMax
    { manager with roundTimeout := timestampSaturatingAdd now (timeoutMicros * factor) }
  else manager

/-- The locked certificate that `check_proposed_block` compares a proposal with:
`max_by_key` on the round over the proposal's certificate then the locked one, which keeps
the last of equal rounds. -/
def highestCertificate :
    Option (Certificate B V) → Option (Certificate B V) → Option (Certificate B V)
  | some validated, some locked => if locked.round ≥ validated.round then some locked else some validated
  | some validated, none => some validated
  | none, locked => locked

/-- The first check of `check_proposed_block`: a certificate in a proposal validates. -/
def checkValidatedValue (validated : Option (Certificate B V)) : Except ChainError Unit :=
  match validated with
  | some validated =>
      if !validated.value.isValidated then .error .invalidBlockProposal else .ok ()
  | none => .ok ()

/-- The round that `check_proposed_block` expects: the current one, or the one after the
proposal's certificate if that is later. -/
def expectedRound (manager : MultiOwnerManager B V) (validated : Option (Certificate B V)) :
    Except ChainError Nat :=
  match validated with
  | none => .ok manager.currentRound
  | some certificate =>
      match roundTryAddOne certificate.round with
      | .ok round => .ok (max round manager.currentRound)
      | .error () => .error .arithmeticError

/-- The round check of `check_proposed_block`: in leader rotation mode the round must
equal the expected one exactly; only the first single-leader round can be entered at any
time. -/
def checkRound (multiLeaderRounds expectedRound newRound : Nat) : Except ChainError Unit :=
  if newRound > multiLeaderRounds then
    if expectedRound ≠ newRound then .error (.wrongRound expectedRound) else .ok ()
  else if ¬ expectedRound ≤ newRound then .error (.insufficientRound expectedRound)
  else .ok ()

/-- The lock check of `check_proposed_block`: a locked block must match the proposal,
from an earlier round. -/
def checkLockedBlock [DecidableEq B] (locked : Option (Certificate B V)) (content : BlockAndRound B) :
    Except ChainError Unit :=
  match locked with
  | some locked =>
      match locked.value.block with
      | some block =>
          if ¬ (locked.round < content.round ∧ block = content.block) then
            .error (.hasLockedBlock locked.round)
          else .ok ()
      | none => .error (.internalError "locked certificate must contain block")
  | none => .ok ()

def checkProposedBlock [DecidableEq B] (manager : MultiOwnerManager B V)
    (proposal : BlockProposal B V) : Except ChainError Outcome := do
  checkValidatedValue proposal.validated
  let expectedRound ← manager.expectedRound proposal.validated
  checkRound manager.multiLeaderRounds expectedRound proposal.content.round
  let accept : Except ChainError Outcome := do
    checkLockedBlock (highestCertificate proposal.validated manager.locked) proposal.content
    pure .accept
  match manager.proposed with
  | some oldProposal =>
      -- We already voted for this proposal; nothing to do.
      if oldProposal.content = proposal.content then pure .skip
      else if proposal.content.round ≤ oldProposal.content.round then
        throw (.insufficientRound oldProposal.content.round)
      else accept
  | none => accept

/-- `create_vote`: records the proposal, locks a newer certificate it carries, and signs
a vote to validate it. -/
def createVote (manager : MultiOwnerManager B V) (proposal : BlockProposal B V)
    (keyPair : Option V) (now : Nat) : MultiOwnerManager B V :=
  let manager :=
    match roundTrySubOne proposal.content.round with
    | .ok round => manager.updateTimeout round now
    | .error () => manager
  let manager := { manager with proposed := some proposal }
  let manager :=
    match proposal.validated with
    | some validated =>
        if manager.locked.all fun locked => locked.round < validated.round then
          { manager with locked := some validated }
        else manager
    | none => manager
  match keyPair with
  | some validator =>
      { manager with
        pending := some ⟨.validatedBlock proposal.content.block, proposal.content.round, validator⟩ }
  | none => manager

/-- The check of `check_validated_block` against the last vote: whether this block was
already confirmed in this round. -/
def alreadyConfirmed [DecidableEq B] (pending : Option (Vote B V)) (certificate : Certificate B V) :
    Except ChainError Bool :=
  match pending with
  | some vote =>
      match vote.value with
      | .confirmedBlock block =>
          .ok (decide (some block = certificate.value.block ∧ vote.round = certificate.round))
      | .validatedBlock _ =>
          if ¬ certificate.round ≥ vote.round then .error (.insufficientRound vote.round)
          else .ok false
      | .leaderTimeout => .error (.internalError "pending can only be validated or confirmed block")
  | none => .ok false

def checkValidatedBlock [DecidableEq B] (manager : MultiOwnerManager B V)
    (certificate : Certificate B V) : Except ChainError Outcome :=
  match alreadyConfirmed manager.pending certificate with
  | .error error => .error error
  -- We already voted to confirm this block.
  | .ok true => .ok .skip
  | .ok false =>
      match manager.locked with
      | some locked =>
          if ¬ certificate.round > locked.round then .error (.insufficientRound locked.round)
          else .ok .accept
      | none => .ok .accept

/-- `create_final_vote`: locks the validated block and signs a vote to confirm it. -/
def createFinalVote (manager : MultiOwnerManager B V) (certificate : Certificate B V)
    (keyPair : Option V) (now : Nat) : MultiOwnerManager B V :=
  let round := certificate.round
  -- Validators only change their locked block in the current round.
  if keyPair.isSome ∧ round < manager.currentRound then manager
  else
    match certificate.value.intoConfirmed with
    | none => manager
    | some value =>
        let manager := { manager.updateTimeout round now with locked := some certificate }
        match keyPair with
        | some validator => { manager with pending := some ⟨value, round, validator⟩ }
        | none => manager

def handleTimeoutCertificate (manager : MultiOwnerManager B V) (certificate : Certificate B V)
    (now : Nat) : MultiOwnerManager B V :=
  if !certificate.value.isTimeout then manager
  else
    let round := certificate.round
    match manager.leaderTimeout with
    | some known =>
        if known.round ≥ round then manager
        else { manager.updateTimeout round now with leaderTimeout := some certificate }
    | none => { manager.updateTimeout round now with leaderTimeout := some certificate }

/-- `vote_leader_timeout`: signs a timeout for the current round once it has timed out. -/
def voteLeaderTimeout (manager : MultiOwnerManager B V) (keyPair : Option V) (now : Nat) :
    MultiOwnerManager B V × Bool :=
  match keyPair with
  | none => (manager, false)
  | some validator =>
      if now < manager.roundTimeout then (manager, false)
      else
        let currentRound := manager.currentRound
        if manager.timeoutVote.any (·.round = currentRound) then (manager, false)
        else ({ manager with timeoutVote := some ⟨.leaderTimeout, currentRound, validator⟩ }, true)

theorem le_max?_getD {rounds : List Nat} {round : Nat} (mem : round ∈ rounds) :
    round ≤ rounds.max?.getD 0 := by
  obtain ⟨greatest, found⟩ := Option.isSome_iff_exists.mp (List.isSome_max?_of_mem mem)
  rw [found, Option.getD_some]
  exact (List.max?_eq_some_iff.mp found).2 round mem

theorem le_currentRound_of_proposed {manager : MultiOwnerManager B V} {proposal : BlockProposal B V}
    (proposed : manager.proposed = some proposal) :
    proposal.content.round ≤ manager.currentRound := by
  apply le_max?_getD
  rw [List.reduceOption_mem_iff]
  simp [proposed]

theorem le_currentRound_of_locked {manager : MultiOwnerManager B V} {locked : Certificate B V}
    (lockedEq : manager.locked = some locked) : locked.round ≤ manager.currentRound := by
  apply le_max?_getD
  rw [List.reduceOption_mem_iff]
  simp [lockedEq]

theorem highestCertificate_of_locked {validated : Option (Certificate B V)} {locked : Certificate B V} :
    ∃ highest, highestCertificate validated (some locked) = some highest ∧ locked.round ≤ highest.round ∧
      (highest = locked ∨ validated = some highest) := by
  rcases validated with _ | validated
  · exact ⟨locked, rfl, le_rfl, Or.inl rfl⟩
  · by_cases later : locked.round ≥ validated.round
    · exact ⟨locked, by simp [highestCertificate, later], le_rfl, Or.inl rfl⟩
    · exact ⟨validated, by simp [highestCertificate, later], by omega, Or.inr rfl⟩

theorem mem_highestCertificate {validated locked : Option (Certificate B V)} {highest : Certificate B V}
    (found : highestCertificate validated locked = some highest) :
    validated = some highest ∨ locked = some highest := by
  unfold highestCertificate at found
  split at found
  · split_ifs at found <;> cases found <;> simp
  · cases found
    exact Or.inl rfl
  · exact Or.inr found

theorem isValidated_of_checkValidatedValue {validated : Option (Certificate B V)}
    (checked : checkValidatedValue validated = .ok ()) (certificate : Certificate B V)
    (carried : validated = some certificate) : certificate.value.isValidated = true := by
  subst carried
  unfold checkValidatedValue at checked
  by_contra invalid
  simp [invalid] at checked

theorem checkLockedBlock_eq_ok [DecidableEq B] {locked : Option (Certificate B V)}
    {content : BlockAndRound B} (checked : checkLockedBlock locked content = .ok ())
    (certificate : Certificate B V) (lockedEq : locked = some certificate) :
    certificate.round < content.round ∧ certificate.value.block = some content.block := by
  subst lockedEq
  unfold checkLockedBlock at checked
  rcases found : certificate.value.block with _ | block
  · simp [found] at checked
  · simp only [found] at checked
    split_ifs at checked with matching
    exact ⟨matching.1, by rw [matching.2]⟩

/-- What `check_proposed_block` accepts: a proposal in a later round than the last one,
whose certificate validates and whose block the highest certificate allows. -/
theorem checkProposedBlock_eq_accept [DecidableEq B] {manager : MultiOwnerManager B V}
    {proposal : BlockProposal B V} (accepted : manager.checkProposedBlock proposal = .ok .accept) :
    checkValidatedValue proposal.validated = .ok () ∧
      (∀ oldProposal, manager.proposed = some oldProposal →
        oldProposal.content.round < proposal.content.round) ∧
      checkLockedBlock (highestCertificate proposal.validated manager.locked) proposal.content =
        .ok () := by
  unfold checkProposedBlock at accepted
  obtain ⟨⟨⟩, validatedOk, accepted⟩ := (Except.bind_eq_ok_iff _ _ _).mp accepted
  obtain ⟨expected, -, accepted⟩ := (Except.bind_eq_ok_iff _ _ _).mp accepted
  obtain ⟨⟨⟩, -, accepted⟩ := (Except.bind_eq_ok_iff _ _ _).mp accepted
  -- Past the round checks, the proposal is compared with the last one, then with the lock.
  have lockedOk : ∀ outcome, (do
      checkLockedBlock (highestCertificate proposal.validated manager.locked) proposal.content
      pure Outcome.accept : Except ChainError Outcome) = .ok outcome →
      checkLockedBlock (highestCertificate proposal.validated manager.locked) proposal.content =
        .ok () := by
    intro outcome checked
    obtain ⟨⟨⟩, locked, -⟩ := (Except.bind_eq_ok_iff _ _ _).mp checked
    exact locked
  rcases proposedEq : manager.proposed with _ | oldProposal
  · simp only [proposedEq] at accepted
    exact ⟨validatedOk, by simp, lockedOk _ accepted⟩
  · simp only [proposedEq] at accepted
    split_ifs at accepted with same earlier
    · cases accepted
    · refine ⟨validatedOk, ?_, lockedOk _ accepted⟩
      intro old found
      cases found
      omega

theorem checkValidatedBlock_eq_accept [DecidableEq B] {manager : MultiOwnerManager B V}
    {certificate : Certificate B V}
    (accepted : manager.checkValidatedBlock certificate = .ok .accept) :
    ∀ locked, manager.locked = some locked → locked.round < certificate.round := by
  intro locked lockedEq
  unfold checkValidatedBlock at accepted
  split at accepted
  · cases accepted
  · cases accepted
  · rw [lockedEq] at accepted
    dsimp only at accepted
    split_ifs at accepted with earlier
    omega

section Fields

variable (manager : MultiOwnerManager B V) (round now : Nat)

@[simp] theorem proposed_updateTimeout : (manager.updateTimeout round now).proposed = manager.proposed := by
  unfold updateTimeout
  split <;> rfl

@[simp] theorem locked_updateTimeout : (manager.updateTimeout round now).locked = manager.locked := by
  unfold updateTimeout
  split <;> rfl

@[simp] theorem pending_updateTimeout : (manager.updateTimeout round now).pending = manager.pending := by
  unfold updateTimeout
  split <;> rfl

@[simp] theorem timeoutVote_updateTimeout :
    (manager.updateTimeout round now).timeoutVote = manager.timeoutVote := by
  unfold updateTimeout
  split <;> rfl

@[simp] theorem leaderTimeout_updateTimeout :
    (manager.updateTimeout round now).leaderTimeout = manager.leaderTimeout := by
  unfold updateTimeout
  split <;> rfl

end Fields

theorem handleTimeoutCertificate_votes (manager : MultiOwnerManager B V)
    (certificate : Certificate B V) (now : Nat) :
    let handled := manager.handleTimeoutCertificate certificate now
    handled.proposed = manager.proposed ∧ handled.locked = manager.locked ∧
      handled.pending = manager.pending ∧ handled.timeoutVote = manager.timeoutVote ∧
      (handled.leaderTimeout = manager.leaderTimeout ∨
        handled.leaderTimeout = some certificate ∧
          ∀ known, manager.leaderTimeout = some known → known.round < certificate.round) := by
  unfold handleTimeoutCertificate
  by_cases timeout : certificate.value.isTimeout = true
  · simp only [timeout, Bool.not_true, Bool.false_eq_true, if_false]
    rcases knownEq : manager.leaderTimeout with _ | known
    · simp
    · dsimp only
      split_ifs with later
      · exact ⟨rfl, rfl, rfl, rfl, Or.inl knownEq⟩
      · simp only [proposed_updateTimeout, locked_updateTimeout, pending_updateTimeout,
          timeoutVote_updateTimeout, Option.some.injEq, forall_eq', true_and]
        exact Or.inr (by omega)
  · simp [timeout]

theorem voteLeaderTimeout_votes (manager : MultiOwnerManager B V) (keyPair : Option V) (now : Nat) :
    let voted := (manager.voteLeaderTimeout keyPair now).1
    voted.proposed = manager.proposed ∧ voted.locked = manager.locked ∧
      voted.pending = manager.pending ∧
      (voted.timeoutVote = manager.timeoutVote ∨
        ∃ validator round, keyPair = some validator ∧
          voted.timeoutVote = some ⟨.leaderTimeout, round, validator⟩) ∧
      voted.leaderTimeout = manager.leaderTimeout := by
  unfold voteLeaderTimeout
  split
  · exact ⟨rfl, rfl, rfl, Or.inl rfl, rfl⟩
  · rename_i validator
    split
    · exact ⟨rfl, rfl, rfl, Or.inl rfl, rfl⟩
    · dsimp only
      split
      · exact ⟨rfl, rfl, rfl, Or.inl rfl, rfl⟩
      · exact ⟨rfl, rfl, rfl, Or.inr ⟨validator, _, rfl, rfl⟩, rfl⟩

/-- `create_vote` records the proposal, locks its certificate when that is newer than the
lock, and for a validator signs a vote to validate the block. -/
theorem createVote_spec (manager : MultiOwnerManager B V) (proposal : BlockProposal B V)
    (keyPair : Option V) (now : Nat) :
    let voted := manager.createVote proposal keyPair now
    voted.proposed = some proposal ∧ voted.timeoutVote = manager.timeoutVote ∧
      voted.leaderTimeout = manager.leaderTimeout ∧
      voted.pending = (match keyPair with
        | some validator =>
            some ⟨.validatedBlock proposal.content.block, proposal.content.round, validator⟩
        | none => manager.pending) ∧
      (voted.locked = manager.locked ∨
        ∃ validated, proposal.validated = some validated ∧ voted.locked = some validated ∧
          ∀ locked, manager.locked = some locked → locked.round < validated.round) := by
  -- The timer is reset first; it touches none of these fields.
  obtain ⟨timed, proposedTimed, lockedTimed, pendingTimed, timeoutTimed, leaderTimed, timedEq⟩ :
      ∃ timed : MultiOwnerManager B V, timed.proposed = manager.proposed ∧
        timed.locked = manager.locked ∧ timed.pending = manager.pending ∧
        timed.timeoutVote = manager.timeoutVote ∧ timed.leaderTimeout = manager.leaderTimeout ∧
        (match roundTrySubOne proposal.content.round with
          | .ok round => manager.updateTimeout round now
          | .error () => manager) = timed := by
    refine ⟨_, ?_, ?_, ?_, ?_, ?_, rfl⟩ <;> split <;> simp
  unfold createVote
  rw [timedEq]
  have locking : ∀ recorded : MultiOwnerManager B V, recorded.locked = manager.locked →
      let locked := match proposal.validated with
        | some validated =>
            if recorded.locked.all fun (locked : Certificate B V) => locked.round < validated.round then
              { recorded with locked := some validated }
            else recorded
        | none => recorded
      locked.proposed = recorded.proposed ∧ locked.pending = recorded.pending ∧
        locked.timeoutVote = recorded.timeoutVote ∧ locked.leaderTimeout = recorded.leaderTimeout ∧
        (locked.locked = manager.locked ∨
          ∃ validated, proposal.validated = some validated ∧ locked.locked = some validated ∧
            ∀ locked, manager.locked = some locked → locked.round < validated.round) := by
    intro recorded same
    rcases validatedEq : proposal.validated with _ | validated
    · exact ⟨rfl, rfl, rfl, rfl, Or.inl same⟩
    · dsimp only
      split_ifs with newer
      · refine ⟨rfl, rfl, rfl, rfl, Or.inr ⟨validated, rfl, rfl, ?_⟩⟩
        intro locked lockedEq
        rw [same, lockedEq] at newer
        simpa using newer
      · exact ⟨rfl, rfl, rfl, rfl, Or.inl same⟩
  obtain ⟨proposedLocked, pendingLocked, timeoutLocked, leaderLocked, lockedCases⟩ :=
    locking { timed with proposed := some proposal } lockedTimed
  rcases keyPair with _ | validator
  · exact ⟨proposedLocked, timeoutLocked.trans timeoutTimed, leaderLocked.trans leaderTimed,
      pendingLocked.trans pendingTimed, lockedCases⟩
  · exact ⟨proposedLocked, timeoutLocked.trans timeoutTimed, leaderLocked.trans leaderTimed, rfl,
      lockedCases⟩

/-- `create_final_vote` either changes nothing, or locks the validated block of the
current round or a later one and, for a validator, signs a vote to confirm it. -/
theorem createFinalVote_spec (manager : MultiOwnerManager B V) (certificate : Certificate B V)
    (keyPair : Option V) (now : Nat) :
    let voted := manager.createFinalVote certificate keyPair now
    voted = manager ∨
      ((keyPair.isSome → manager.currentRound ≤ certificate.round) ∧
        ∃ block, certificate.value = .validatedBlock block ∧
          voted.proposed = manager.proposed ∧ voted.locked = some certificate ∧
          voted.timeoutVote = manager.timeoutVote ∧ voted.leaderTimeout = manager.leaderTimeout ∧
          voted.pending = (match keyPair with
            | some validator => some ⟨.confirmedBlock block, certificate.round, validator⟩
            | none => manager.pending)) := by
  unfold createFinalVote
  dsimp only
  split_ifs with early
  · exact Or.inl rfl
  · rcases valueEq : certificate.value with block | block | _
    · refine Or.inr ⟨fun isValidator => by simp_all, block, rfl, ?_⟩
      simp only [CertificateValue.intoConfirmed]
      rcases keyPair with _ | validator <;> simp
    · simp [CertificateValue.intoConfirmed]
    · simp [CertificateValue.intoConfirmed]

end MultiOwnerManager

/-- `SingleOwnerManager`, without the owner's key. -/
structure SingleOwnerManager (B V : Type) where
  pending : Option (Vote B V)

namespace SingleOwnerManager

variable {B V : Type} [DecidableEq B]

def checkProposedBlock (manager : SingleOwnerManager B V) (proposal : BlockProposal B V) :
    Except ChainError Outcome := do
  if proposal.validated.isSome then throw .invalidBlockProposal
  if ¬ (proposal.content.round = 0 ∧ proposal.validated.isNone) then throw .invalidBlockProposal
  match manager.pending with
  | some vote =>
      match vote.value with
      | .confirmedBlock block =>
          if block = proposal.content.block then pure .skip
          else throw .previousBlockMustBeConfirmedFirst
      | _ => throw (.internalError "Unexpected value")
  | none => pure .accept

/-- `SingleOwnerManager::create_vote`: signs a vote to confirm the proposal directly. -/
def createVote (manager : SingleOwnerManager B V) (proposal : BlockProposal B V)
    (keyPair : Option V) : SingleOwnerManager B V :=
  match keyPair with
  | some validator =>
      if proposal.content.round ≠ 0 then manager
      else ⟨some ⟨.confirmedBlock proposal.content.block, proposal.content.round, validator⟩⟩
  | none => manager

theorem checkProposedBlock_eq_accept {manager : SingleOwnerManager B V}
    {proposal : BlockProposal B V} (accepted : manager.checkProposedBlock proposal = .ok .accept) :
    proposal.content.round = 0 ∧ manager.pending = none := by
  unfold checkProposedBlock at accepted
  by_cases carried : proposal.validated.isSome
  · simp [carried] at accepted
  have unset : proposal.validated = none := by simpa using carried
  by_cases first : proposal.content.round = 0
  · refine ⟨first, ?_⟩
    rcases pendingEq : manager.pending with _ | vote
    · rfl
    · -- A held vote only ever gives `Skip` or an error.
      rcases valueEq : vote.value with block | block | _ <;>
        simp [unset, first, pendingEq, valueEq] at accepted
      split_ifs at accepted
      cases accepted
  · simp [carried, first] at accepted

omit [DecidableEq B] in
theorem createVote_of_round_zero (manager : SingleOwnerManager B V) (proposal : BlockProposal B V)
    (validator : V) (first : proposal.content.round = 0) :
    manager.createVote proposal (some validator) =
      ⟨some ⟨.confirmedBlock proposal.content.block, proposal.content.round, validator⟩⟩ := by
  simp [createVote, first]

end SingleOwnerManager

end Linera.Chain.Manager
