import Linera.Core.Worker
import Linera.Lib.Quorum

set_option autoImplicit false

/-! The validators of a committee voting on a chain's next block, as certificates see them.

Each validator keeps a chain manager for the chain at this height, and changes it only
through its worker's handlers. After each request a validator sends the votes it holds;
the network records every vote sent. A certificate for a value in a round is any list of
signers that passes `check_signatures`, where a faulty validator signs anything and any
other only what it sent. With less than a third of the weight faulty, two quorums share
a validator that is not faulty. -/

namespace Linera.Core

open Linera.Chain.Manager

/-- A request to a validator's worker at this height. -/
inductive Request (B V : Type) where
  | handleBlockProposal (proposal : BlockProposal B V)
  | processValidatedBlock (certificate : Certificate B V)
  | processLeaderTimeout (certificate : Certificate B V)
  /-- The validator's clock: `vote_leader_timeout`. -/
  | voteLeaderTimeout
  deriving DecidableEq, Repr

/-- A request delivered to a validator at a time. -/
structure Action (B V : Type) where
  validator : V
  request : Request B V
  now : Nat
  deriving DecidableEq, Repr

/-- The validators' chain managers at this height, and the votes sent so far. -/
structure Network (M B V : Type) where
  managers : V → M
  votes : List (Vote B V)

namespace Network

variable {M B V : Type} [DecidableEq B] [DecidableEq V]

section Signatures

variable (committee : Committee V) (faulty : Finset V)

/-- Which validators signed a value in a round: a faulty one signs anything, any other
only the votes it sent. -/
def signed (network : Network M B V) (value : CertificateValue B) (round : Nat) (validator : V) :
    Bool :=
  decide (validator ∈ faulty) || decide (⟨value, round, validator⟩ ∈ network.votes)

/-- A quorum of the committee signed the value in the round. -/
def Certified (network : Network M B V) (value : CertificateValue B) (round : Nat) : Prop :=
  ∃ signatures, committee.checkSignatures (network.signed faulty value round) signatures = .ok ()

end Signatures

/-- A validator saves its manager and sends votes. -/
def send (network : Network M B V) (validator : V) (manager : M) (sent : List (Vote B V)) :
    Network M B V where
  managers := Function.update network.managers validator manager
  votes := network.votes ++ sent

section Send

variable {network : Network M B V} {validator : V} {manager : M} {sent : List (Vote B V)}

omit [DecidableEq B] in
@[simp] theorem managers_send_self : (network.send validator manager sent).managers validator = manager := by
  simp [send]

omit [DecidableEq B] in
theorem managers_send_of_ne {other : V} (different : other ≠ validator) :
    (network.send validator manager sent).managers other = network.managers other := by
  simp [send, different]

omit [DecidableEq B] in
@[simp] theorem mem_send_votes {vote : Vote B V} :
    vote ∈ (network.send validator manager sent).votes ↔ vote ∈ network.votes ∨ vote ∈ sent := by
  simp [send]

variable {committee : Committee V} {faulty : Finset V}

theorem certified_of_check {certificate : Certificate B V}
    (checked : certificate.check committee (network.signed faulty) = .ok ()) :
    Certified committee faulty network certificate.value certificate.round :=
  ⟨certificate.signatures, checked⟩

/-- Votes are never withdrawn, so what is certified stays certified. -/
theorem Certified.send {value : CertificateValue B} {round : Nat}
    (certified : Certified committee faulty network value round) :
    Certified committee faulty (network.send validator manager sent) value round := by
  obtain ⟨signatures, checked⟩ := certified
  refine ⟨signatures, committee.checkSignatures_mono ?_ signatures checked⟩
  intro v before
  simp only [signed, Bool.or_eq_true, decide_eq_true_eq] at before ⊢
  exact before.imp_right fun old => mem_send_votes.mpr (Or.inl old)

end Send

/-- Two values certified in the network were both signed by one validator that is not
faulty, when the votes of the committee fit and the faulty validators weigh less than the
validity threshold. -/
theorem exists_honest_signer {committee : Committee V} {faulty : Finset V} {network : Network M B V}
    (fits : committee.Fits)
    (fewFaulty : ∑ v ∈ faulty, committee.votingRights v < committee.validityThreshold.toNat)
    {first second : CertificateValue B} {firstRound secondRound : Nat}
    (firstCertified : Certified committee faulty network first firstRound)
    (secondCertified : Certified committee faulty network second secondRound) :
    ∃ v, v ∉ faulty ∧ ⟨first, firstRound, v⟩ ∈ network.votes ∧
      ⟨second, secondRound, v⟩ ∈ network.votes := by
  obtain ⟨firstSignatures, firstChecked⟩ := firstCertified
  obtain ⟨secondSignatures, secondChecked⟩ := secondCertified
  obtain ⟨firstSigners, firstInside, firstReaches, firstSigned⟩ :=
    Committee.checkSignatures_eq_ok fits _ _ firstChecked
  obtain ⟨secondSigners, secondInside, secondReaches, secondSigned⟩ :=
    Committee.checkSignatures_eq_ok fits _ _ secondChecked
  have intersecting : (∑ v ∈ committee.validators, committee.votingRights v) +
      ∑ v ∈ faulty, committee.votingRights v < 2 * committee.quorumThreshold.toNat := by
    have overlap := Committee.totalVotes_add_validityThreshold_le fits
    rw [← Committee.toNat_totalVotes fits]
    omega
  obtain ⟨v, inFirst, inSecond, notFaulty⟩ := Quorum.exists_honest_mem_inter committee.votingRights
    firstInside secondInside firstReaches secondReaches intersecting
  -- A validator outside the faulty set signs only what it sent.
  have sentOf : ∀ value round, network.signed faulty value round v = true →
      ⟨value, round, v⟩ ∈ network.votes := by
    intro value round signedIt
    simpa [signed, notFaulty] using signedIt
  exact ⟨v, notFaulty, sentOf _ _ (firstSigned v inFirst), sentOf _ _ (secondSigned v inSecond)⟩

end Network

end Linera.Core
