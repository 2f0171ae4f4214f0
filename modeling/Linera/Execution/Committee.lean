import Mathlib
import Linera.Chain.Manager
import Linera.Lib.OrdMap
import Linera.Lib.Quorum

set_option autoImplicit false

/-! The thresholds of a committee (`linera-execution/src/committee.rs`).

`Committee::new` adds up the votes of the validators and derives the quorum threshold
`⌊2 N / 3⌋ + 1` and the validity threshold `⌊(N + 2) / 3⌋` from the total `N`. The source
comment writes `N = 3 f + 1 + k` with `0 ≤ k ≤ 2`: the thresholds are then `N - f` and
`f + 1`, so two quorums share more than `f` votes and the validators outside any `f` votes
still form a quorum. That holds while the fold and the product `2 * total_votes`, which are
unchecked `u64` arithmetic, do not wrap (`Committee.Fits`). -/

namespace Linera.Chain.Manager.Committee

variable {V : Type} [DecidableEq V] {committee : Committee V}

omit [DecidableEq V] in
/-- The two thresholds add up to at most one more than the total weight: `q ≤ N - (v - 1)`
over the integers. -/
theorem quorumThreshold_add_validityThreshold_le (fits : committee.Fits) :
    committee.quorumThreshold.toNat + committee.validityThreshold.toNat ≤
      committee.totalVotes.toNat + 1 := by
  rw [toNat_quorumThreshold fits, toNat_validityThreshold fits]
  omega

theorem validityThreshold_le_inter (fits : committee.Fits) {first second : Finset V}
    (firstInside : first ⊆ committee.validators) (secondInside : second ⊆ committee.validators)
    (firstReaches : committee.quorumThreshold.toNat ≤ ∑ v ∈ first, committee.votingRights v)
    (secondReaches : committee.quorumThreshold.toNat ≤ ∑ v ∈ second, committee.votingRights v) :
    committee.validityThreshold.toNat ≤ ∑ v ∈ first ∩ second, committee.votingRights v := by
  have overlap := Quorum.two_mul_le_add_inter committee.votingRights firstInside secondInside
    firstReaches secondReaches
  have bound := totalVotes_add_validityThreshold_le fits
  rw [← toNat_totalVotes fits] at overlap
  omega

theorem quorumThreshold_le_sdiff (fits : committee.Fits) {faulty : Finset V}
    (fewFaulty : ∑ v ∈ faulty, committee.votingRights v < committee.validityThreshold.toNat) :
    committee.quorumThreshold.toNat ≤
      ∑ v ∈ committee.validators \ faulty, committee.votingRights v := by
  have split : ∑ v ∈ committee.validators ∩ faulty, committee.votingRights v +
      ∑ v ∈ committee.validators \ faulty, committee.votingRights v =
        ∑ v ∈ committee.validators, committee.votingRights v :=
    Finset.sum_inter_add_sum_sdiff _ _ _
  have inside : ∑ v ∈ committee.validators ∩ faulty, committee.votingRights v ≤
      ∑ v ∈ faulty, committee.votingRights v :=
    Finset.sum_le_sum_of_subset Finset.inter_subset_right
  have bound := quorumThreshold_add_validityThreshold_le fits
  rw [← toNat_totalVotes fits] at split
  omega

end Linera.Chain.Manager.Committee

namespace Linera.Execution

/-- `ValidatorState`, without the network address. -/
structure ValidatorState where
  votes : UInt64
  deriving DecidableEq, Repr

/-- `Committee`, without the resource control policy. -/
structure Committee (V : Type) [LinearOrder V] where
  validators : OrdMap V ValidatorState
  totalVotes : UInt64
  quorumThreshold : UInt64
  validityThreshold : UInt64

namespace Committee

variable {V : Type} [LinearOrder V]

/-- `Committee::new`, in `u64` arithmetic without checks. -/
def new (validators : OrdMap V ValidatorState) : Committee V :=
  let totalVotes := validators.entries.foldl (fun sum entry => sum + entry.2.votes) 0
  let quorumThreshold := 2 * totalVotes / 3 + 1
  let validityThreshold := (totalVotes + 2) / 3
  ⟨validators, totalVotes, quorumThreshold, validityThreshold⟩

/-- The validators and their votes, as `check_signatures` and the chain managers see them. -/
def weights (validators : OrdMap V ValidatorState) : Linera.Chain.Manager.Committee V :=
  ⟨validators.keys.toFinset, fun v => ((validators.get v).map (·.votes)).getD 0⟩

omit [LinearOrder V] in
theorem foldl_votes (entries : List ((_ : V) × ValidatorState)) (sum : UInt64) :
    entries.foldl (fun sum entry => sum + entry.2.votes) sum =
      sum + (entries.map (·.2.votes)).sum := by
  induction entries generalizing sum with
  | nil => simp
  | cons entry rest ih => rw [List.foldl_cons, ih, List.map_cons, List.sum_cons, UInt64.add_assoc]

/-- `Committee::new` computes the total and the thresholds of the committee of its votes,
wrapping as they do. -/
theorem new_eq_weights (validators : OrdMap V ValidatorState) :
    (new validators).totalVotes = (weights validators).totalVotes ∧
      (new validators).quorumThreshold = (weights validators).quorumThreshold ∧
      (new validators).validityThreshold = (weights validators).validityThreshold := by
  have distinct : validators.keys.Nodup := validators.nodupKeys
  have total : (new validators).totalVotes = (weights validators).totalVotes := by
    unfold Linera.Chain.Manager.Committee.totalVotes weights
    dsimp only [new]
    rw [foldl_votes, UInt64.zero_add, List.sum_toFinset _ distinct, OrdMap.keys, List.map_map]
    congr 1
    apply List.map_congr_left
    intro entry mem
    have found : validators.get entry.1 = some entry.2 :=
      List.mem_dlookup validators.nodupKeys mem
    simp [found]
  refine ⟨total, ?_, ?_⟩
  · simp only [Linera.Chain.Manager.Committee.quorumThreshold, ← total]
    rfl
  · simp only [Linera.Chain.Manager.Committee.validityThreshold, ← total]
    rfl

/-- The quorum threshold is taken of the doubled total modulo `2^64`: the product wraps on its
own, even when the sum does not. -/
theorem new_quorumThreshold_toNat (validators : OrdMap V ValidatorState) :
    (new validators).quorumThreshold.toNat =
      2 * (new validators).totalVotes.toNat % 2 ^ 64 / 3 + 1 := by
  simp only [new, UInt64.toNat_add, UInt64.toNat_div, UInt64.toNat_mul, UInt64.reduceToNat]
  omega

/-- While the doubled sum of the votes fits in a `u64`, the thresholds of `Committee::new`
make two quorums share validators that weigh the validity threshold, add up to at most one
more than the total, and make the validators outside any set that weighs less than the
validity threshold a quorum. -/
theorem new_thresholds_of_fits (validators : OrdMap V ValidatorState)
    (fits : (weights validators).Fits) :
    (∀ first second : Finset V, first ⊆ (weights validators).validators →
      second ⊆ (weights validators).validators →
      (new validators).quorumThreshold.toNat ≤ ∑ v ∈ first, (weights validators).votingRights v →
      (new validators).quorumThreshold.toNat ≤ ∑ v ∈ second, (weights validators).votingRights v →
      (new validators).validityThreshold.toNat ≤
        ∑ v ∈ first ∩ second, (weights validators).votingRights v) ∧
    (new validators).quorumThreshold.toNat + (new validators).validityThreshold.toNat ≤
      (new validators).totalVotes.toNat + 1 ∧
    (∀ faulty : Finset V,
      ∑ v ∈ faulty, (weights validators).votingRights v < (new validators).validityThreshold.toNat →
      (new validators).quorumThreshold.toNat ≤
        ∑ v ∈ (weights validators).validators \ faulty, (weights validators).votingRights v) := by
  obtain ⟨total, quorum, validity⟩ := new_eq_weights validators
  rw [total, quorum, validity]
  exact ⟨fun _ _ firstInside secondInside =>
      Linera.Chain.Manager.Committee.validityThreshold_le_inter fits firstInside secondInside,
    Linera.Chain.Manager.Committee.quorumThreshold_add_validityThreshold_le fits,
    fun _ fewFaulty => Linera.Chain.Manager.Committee.quorumThreshold_le_sdiff fits fewFaulty⟩

/-- Four validators of one vote each: the quorum is three and the validity threshold two. -/
theorem new_thresholds_of_fits_at_four :
    let validators : OrdMap Nat ValidatorState :=
      ⟨[⟨0, ⟨1⟩⟩, ⟨1, ⟨1⟩⟩, ⟨2, ⟨1⟩⟩, ⟨3, ⟨1⟩⟩], by decide⟩
    (weights validators).Fits ∧
      (∀ first second : Finset Nat, first ⊆ (weights validators).validators →
        second ⊆ (weights validators).validators →
        (new validators).quorumThreshold.toNat ≤ ∑ v ∈ first, (weights validators).votingRights v →
        (new validators).quorumThreshold.toNat ≤ ∑ v ∈ second, (weights validators).votingRights v →
        (new validators).validityThreshold.toNat ≤
          ∑ v ∈ first ∩ second, (weights validators).votingRights v) ∧
      (new validators).quorumThreshold.toNat + (new validators).validityThreshold.toNat ≤
        (new validators).totalVotes.toNat + 1 ∧
      (∀ faulty : Finset Nat,
        ∑ v ∈ faulty, (weights validators).votingRights v < (new validators).validityThreshold.toNat →
        (new validators).quorumThreshold.toNat ≤
          ∑ v ∈ (weights validators).validators \ faulty, (weights validators).votingRights v) := by
  intro validators
  have fits : (weights validators).Fits := by decide
  exact ⟨fits, new_thresholds_of_fits validators fits⟩

/-- Votes of `2 ^ 63`, `2 ^ 63` and `1` add up to a total of `1` in a `u64`: validators 0
and 1 each weigh a quorum alone, and share nothing. -/
theorem new_wraps_to_disjoint_quorums :
    let validators : OrdMap Nat ValidatorState :=
      ⟨[⟨0, ⟨9223372036854775808⟩⟩, ⟨1, ⟨9223372036854775808⟩⟩, ⟨2, ⟨1⟩⟩], by decide⟩
    (new validators).totalVotes = 1 ∧ (new validators).quorumThreshold = 1 ∧
      (new validators).validityThreshold = 1 ∧
      (new validators).quorumThreshold.toNat ≤ ∑ v ∈ {0}, (weights validators).votingRights v ∧
      (new validators).quorumThreshold.toNat ≤ ∑ v ∈ {1}, (weights validators).votingRights v ∧
      ∑ v ∈ ({0} ∩ {1} : Finset Nat), (weights validators).votingRights v <
        (new validators).validityThreshold.toNat := by
  decide

end Committee

end Linera.Execution
