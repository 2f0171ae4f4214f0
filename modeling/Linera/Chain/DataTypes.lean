import Linera.Chain.Manager
import Linera.Lib.BinarySearch

set_option autoImplicit false

/-! Certificates and the aggregation of their signatures (`linera-chain/src/data_types.rs`).

A `Certificate` carries a value, a round, and the signatures of validators on them, sorted by
validator name. `add_signature` inserts a signature where a binary search for its name points,
`is_signed_by` searches for a name, `Certificate::new` sorts a list that is not strictly sorted,
and the custom `Deserialize` accepts only strictly sorted lists. A `SignatureAggregator`
collects the signatures of distinct validators with voting rights until the weight gathered
since its last certificate reaches the quorum threshold, and then hands out the certificate
built so far.

Validator names are a linear order `V` and signatures an opaque type `S`: `valid v s` says
whether `s` checks as the signature of `v` on the value and round (`Signature::check`), and the
batch verification of `check_signatures` checks every signature in the same way. Voting rights
are `u64`, as in `Linera.Chain.Manager.Committee`, and so is the weight an aggregator gathers;
both add up without checks. Serialisation is modelled at the level of
the fields: the derived `Serialize` writes the value, the round and the signatures, which the
derived deserialiser of the helper struct reads back; what is modelled is the check that
`Deserialize` adds. -/

namespace Linera.Chain.DataTypes

open BinarySearch
open Linera.Chain.Manager (Committee)

structure Certificate (H V S : Type) where
  value : H
  round : Nat
  signatures : List (V × S)
  deriving DecidableEq, Repr

/-- The fields of a certificate as its serialisation carries them (`CertificateHelper`). -/
structure CertificateHelper (H V S : Type) where
  value : H
  round : Nat
  signatures : List (V × S)
  deriving DecidableEq, Repr

section Certificates

variable {H V S : Type} [LinearOrder V]

/-- `is_strictly_ordered`: every name below the next one. -/
def isStrictlyOrdered : List (V × S) → Bool
  | first :: second :: rest => decide (first.1 < second.1) && isStrictlyOrdered (second :: rest)
  | _ => true

/-- The test of the binary searches over the signatures: the name of a signature against the
name searched for. -/
def compareName (name : V) (signature : V × S) : Ordering := compare signature.1 name

namespace Certificate

/-- `Certificate::new`: a list that is not strictly sorted is sorted by name (stably, as
`sort_by_key`). -/
def new (value : H) (round : Nat) (signatures : List (V × S)) : Certificate H V S :=
  let signatures :=
    if !isStrictlyOrdered signatures then
      signatures.mergeSort fun first second => decide (first.1 ≤ second.1)
    else signatures
  ⟨value, round, signatures⟩

/-- `add_signature`: the signature goes where the search for its name points. -/
def addSignature (certificate : Certificate H V S) (signature : V × S) : Certificate H V S :=
  let index :=
    match binarySearchBy certificate.signatures (compareName signature.1) with
    | .ok index => index
    | .error index => index
  { certificate with signatures := certificate.signatures.insertIdx index signature }

def isSignedBy (certificate : Certificate H V S) (validatorName : V) : Bool :=
  (binarySearchBy certificate.signatures (compareName validatorName)).isOk

/-- `check_signatures`: distinct signers with voting rights, weighing a quorum, whose
signatures all check. -/
def checkSignatures (committee : Committee V) (valid : V → S → Bool)
    (signatures : List (V × S)) : Except Manager.ChainError Unit := do
  let weight ← committee.sumWeights [] 0 (signatures.map Prod.fst)
  if weight < committee.quorumThreshold then throw .certificateRequiresQuorum
  if !signatures.all fun signature => valid signature.1 signature.2 then throw .cryptoError

def check (certificate : Certificate H V S) (committee : Committee V) (valid : V → S → Bool) :
    Except Manager.ChainError H := do
  checkSignatures committee valid certificate.signatures
  .ok certificate.value

/-- The fields the derived `Serialize` writes. -/
def serialize (certificate : Certificate H V S) : CertificateHelper H V S :=
  ⟨certificate.value, certificate.round, certificate.signatures⟩

/-- `Deserialize for Certificate`, once the helper is read. -/
def deserialize (helper : CertificateHelper H V S) : Except String (Certificate H V S) :=
  if !isStrictlyOrdered helper.signatures then .error "Vector is not strictly sorted"
  else .ok ⟨helper.value, helper.round, helper.signatures⟩

theorem isStrictlyOrdered_iff : ∀ signatures : List (V × S),
    isStrictlyOrdered signatures = true ↔ signatures.Pairwise (·.1 < ·.1)
  | [] => by simp [isStrictlyOrdered]
  | [_] => by simp [isStrictlyOrdered]
  | first :: second :: rest => by
    rw [isStrictlyOrdered, Bool.and_eq_true, decide_eq_true_eq, isStrictlyOrdered_iff]
    constructor
    · rintro ⟨below, sorted⟩
      refine List.Pairwise.cons (fun other member => ?_) sorted
      rcases List.mem_cons.mp member with rfl | later
      · exact below
      · exact lt_trans below (List.rel_of_pairwise_cons sorted later)
    · intro sorted
      exact ⟨List.rel_of_pairwise_cons sorted List.mem_cons_self, sorted.of_cons⟩

theorem isSignedBy_iff {certificate : Certificate H V S}
    (sorted : certificate.signatures.Pairwise (·.1 < ·.1)) (validator : V) :
    certificate.isSignedBy validator = true ↔ validator ∈ certificate.signatures.map Prod.fst :=
  binarySearchBy_isOk_iff Prod.fst sorted validator

theorem addSignature_signatures {certificate : Certificate H V S}
    (sorted : certificate.signatures.Pairwise (·.1 < ·.1)) {signature : V × S}
    (absent : signature.1 ∉ certificate.signatures.map Prod.fst) :
    (certificate.addSignature signature).signatures.Pairwise (·.1 < ·.1) ∧
      (certificate.addSignature signature).signatures.Perm (signature :: certificate.signatures) := by
  have notFound := (binarySearchBy_isOk_iff Prod.fst sorted signature.1).not.mpr absent
  unfold addSignature
  cases searched : binarySearchBy certificate.signatures (compareName signature.1) with
  | ok index =>
    have found : (binarySearchBy certificate.signatures (compareName signature.1)).isOk = true := by
      rw [searched]
      rfl
    exact absurd found notFound
  | error index =>
    have within := (binarySearchBy_error (sortedFor_compare Prod.fst sorted signature.1)
      searched).1
    exact ⟨insertIdx_error_sorted Prod.fst sorted signature searched,
      List.perm_insertIdx signature certificate.signatures within⟩

theorem new_signatures (value : H) (round : Nat) {signatures : List (V × S)}
    (distinct : (signatures.map Prod.fst).Nodup) :
    (new value round signatures).signatures.Pairwise (·.1 < ·.1) ∧
      (new value round signatures).signatures.Perm signatures := by
  unfold new
  cases ordered : isStrictlyOrdered signatures
  · exact ⟨mergeSort_strictly_sorted Prod.fst distinct, List.mergeSort_perm _ _⟩
  · exact ⟨(isStrictlyOrdered_iff signatures).mp ordered, List.Perm.refl _⟩

theorem deserialize_serialize {certificate : Certificate H V S}
    (sorted : certificate.signatures.Pairwise (·.1 < ·.1)) :
    deserialize (serialize certificate) = .ok certificate := by
  have ordered := (isStrictlyOrdered_iff certificate.signatures).mpr sorted
  simp [deserialize, serialize, ordered]

theorem sumWeights_of_distinct (committee : Committee V) :
    ∀ (names used : List V) (weight : UInt64), names.Nodup →
      (∀ name ∈ names, 0 < committee.votingRights name) → (∀ name ∈ names, name ∉ used) →
      committee.sumWeights used weight names = .ok (weight + (names.map committee.weight).sum)
  | [], _, weight, _, _, _ => by simp [Committee.sumWeights]
  | name :: rest, used, weight, distinct, rights, fresh => by
    have later := List.nodup_cons.mp distinct
    have positive : committee.weight name ≠ 0 := fun zero => by
      have := rights name List.mem_cons_self
      simp [Committee.votingRights, zero] at this
    rw [Committee.sumWeights, if_neg (fresh name List.mem_cons_self), if_neg positive,
      sumWeights_of_distinct committee rest (name :: used) _ later.2
        (fun other member => rights other (List.mem_cons_of_mem _ member))
        (fun other member => ?_)]
    · simp [UInt64.add_assoc]
    · intro usedNow
      rcases List.mem_cons.mp usedNow with same | usedBefore
      · exact later.1 (same ▸ member)
      · exact fresh other (List.mem_cons_of_mem _ member) usedBefore

/-- `check` accepts strictly sorted signatures of validators with voting rights that weigh a
quorum and all check. -/
theorem check_eq_ok (certificate : Certificate H V S) (committee : Committee V)
    (valid : V → S → Bool) (sorted : certificate.signatures.Pairwise (·.1 < ·.1))
    (rights : ∀ signature ∈ certificate.signatures, 0 < committee.votingRights signature.1)
    (quorum : committee.quorumThreshold ≤
      (certificate.signatures.map fun signature => committee.weight signature.1).sum)
    (signed : ∀ signature ∈ certificate.signatures, valid signature.1 signature.2 = true) :
    certificate.check committee valid = .ok certificate.value := by
  have distinct : (certificate.signatures.map Prod.fst).Nodup :=
    List.pairwise_map.mpr (sorted.imp ne_of_lt)
  have summed := sumWeights_of_distinct committee _ [] 0 distinct
    (fun name member => by
      obtain ⟨signature, inside, rfl⟩ := List.mem_map.mp member
      exact rights signature inside)
    (fun _ _ => List.not_mem_nil)
  have allSigned : (certificate.signatures.all fun signature => valid signature.1 signature.2) =
      true := List.all_eq_true.mpr signed
  have total : ((certificate.signatures.map Prod.fst).map committee.weight).sum =
      (certificate.signatures.map fun signature => committee.weight signature.1).sum := by
    rw [List.map_map]
    rfl
  rw [total, UInt64.zero_add] at summed
  simp only [check, checkSignatures, summed, Except.ok_bind]
  rw [if_neg (UInt64.not_lt.mpr quorum), allSigned]
  rfl

end Certificate

/-- `SignatureAggregator`, for a fixed committee. -/
structure SignatureAggregator (H V S : Type) where
  weight : UInt64
  usedValidators : List V
  partialCertificate : Certificate H V S

namespace SignatureAggregator

def new (value : H) (round : Nat) : SignatureAggregator H V S := ⟨0, [], ⟨value, round, []⟩⟩

/-- `append`: the aggregator after the call, and what the call returns. A validator that
passes the signature and reuse checks is recorded as used even when it then turns out to have
no voting rights. -/
def append (committee : Committee V) (valid : V → S → Bool) (aggregator : SignatureAggregator H V S)
    (validator : V) (signature : S) :
    SignatureAggregator H V S × Except Manager.ChainError (Option (Certificate H V S)) :=
  if !valid validator signature then (aggregator, .error .cryptoError)
  else if validator ∈ aggregator.usedValidators then
    (aggregator, .error .certificateValidatorReuse)
  else
    let usedValidators := validator :: aggregator.usedValidators
    let votingRights := committee.weight validator
    if ¬votingRights > 0 then ({ aggregator with usedValidators }, .error .invalidSigner)
    else
      let weight := aggregator.weight + votingRights
      let partialCertificate := aggregator.partialCertificate.addSignature (validator, signature)
      if weight ≥ committee.quorumThreshold then
        -- The weight starts again from zero, so that the next certificate needs a new quorum.
        (⟨0, usedValidators, partialCertificate⟩, .ok (some partialCertificate))
      else (⟨weight, usedValidators, partialCertificate⟩, .ok none)

def appendAll (committee : Committee V) (valid : V → S → Bool) :
    SignatureAggregator H V S → List (V × S) →
      SignatureAggregator H V S × List (Except Manager.ChainError (Option (Certificate H V S)))
  | aggregator, [] => (aggregator, [])
  | aggregator, (validator, signature) :: calls =>
      let (aggregator, result) := aggregator.append committee valid validator signature
      let (aggregator, results) := appendAll committee valid aggregator calls
      (aggregator, result :: results)

def acceptedCalls (calls : List (V × S))
    (results : List (Except Manager.ChainError (Option (Certificate H V S)))) : List (V × S) :=
  (calls.zip results).filterMap fun (call, result) =>
    match result with
    | .ok _ => some call
    | .error _ => none

variable {committee : Committee V} {valid : V → S → Bool}

/-- What an aggregator keeps of the calls it accepted: the partial certificate holds their
signatures, strictly sorted by name; their validators are used; their signatures check; each
has voting rights; and the weight gathered since the last certificate is at most theirs. -/
structure Collects (committee : Committee V) (valid : V → S → Bool)
    (aggregator : SignatureAggregator H V S) (accepted : List (V × S)) : Prop where
  sorted : aggregator.partialCertificate.signatures.Pairwise (·.1 < ·.1)
  perm : aggregator.partialCertificate.signatures.Perm accepted
  used : ∀ call ∈ accepted, call.1 ∈ aggregator.usedValidators
  signed : ∀ call ∈ accepted, valid call.1 call.2 = true
  rights : ∀ call ∈ accepted, 0 < committee.votingRights call.1
  weight : aggregator.weight.toNat ≤ (accepted.map fun call => committee.votingRights call.1).sum

theorem collects_new (committee : Committee V) (valid : V → S → Bool) (value : H) (round : Nat) :
    Collects committee valid (new value round : SignatureAggregator H V S) [] :=
  ⟨List.Pairwise.nil, List.Perm.refl _, nofun, nofun, nofun, Nat.zero_le _⟩

def acceptedAfter (accepted : List (V × S)) (call : V × S)
    (result : Except Manager.ChainError (Option (Certificate H V S))) : List (V × S) :=
  match result with
  | .ok _ => accepted ++ [call]
  | .error _ => accepted

theorem Collects.append {aggregator : SignatureAggregator H V S} {accepted : List (V × S)}
    (collects : Collects committee valid aggregator accepted) (validator : V) (signature : S) :
    let step := aggregator.append committee valid validator signature
    Collects committee valid step.1 (acceptedAfter accepted (validator, signature) step.2) ∧
      ∀ certificate, step.2 = .ok (some certificate) →
        certificate = step.1.partialCertificate ∧
          committee.quorumThreshold.toNat ≤
            ((accepted ++ [(validator, signature)]).map fun call => committee.votingRights call.1).sum := by
  intro step
  unfold step SignatureAggregator.append
  dsimp only
  by_cases invalid : valid validator signature = false
  · simp only [invalid, Bool.not_false, if_true]
    exact ⟨collects, fun _ returned => by cases returned⟩
  have signed : valid validator signature = true := by simpa using invalid
  simp only [signed, Bool.not_true, Bool.false_eq_true, if_false]
  by_cases reused : validator ∈ aggregator.usedValidators
  · rw [if_pos reused]
    exact ⟨collects, fun _ returned => by cases returned⟩
  rw [if_neg reused]
  by_cases noRights : ¬committee.weight validator > 0
  · -- No voting rights: only the used validators change.
    rw [if_pos noRights]
    refine ⟨⟨collects.sorted, collects.perm, fun call member => ?_, collects.signed,
      collects.rights, collects.weight⟩, fun _ returned => by cases returned⟩
    exact List.mem_cons_of_mem _ (collects.used call member)
  rw [if_neg noRights]
  -- An accepted call: its signature goes into the partial certificate.
  have positive : 0 < committee.votingRights validator :=
    UInt64.lt_iff_toNat_lt.mp (not_not.mp noRights)
  have absent : validator ∉ aggregator.partialCertificate.signatures.map Prod.fst := by
    intro present
    obtain ⟨call, member, rfl⟩ := List.mem_map.mp present
    exact reused (collects.used call (collects.perm.subset member))
  obtain ⟨sorted, perm⟩ :=
    Certificate.addSignature_signatures collects.sorted
      (show (validator, signature).1 ∉ aggregator.partialCertificate.signatures.map Prod.fst from absent)
  have sum : ((accepted ++ [(validator, signature)]).map fun call => committee.votingRights call.1).sum =
      (accepted.map fun call => committee.votingRights call.1).sum + committee.votingRights validator := by
    simp
  -- The weight gathered, wrapped or not, is at most that of the accepted calls.
  have gathered : (aggregator.weight + committee.weight validator).toNat ≤
      ((accepted ++ [(validator, signature)]).map fun call => committee.votingRights call.1).sum := by
    have wrapped := Quorum.toNat_add_le aggregator.weight (committee.weight validator)
    have before := collects.weight
    rw [sum]
    unfold Committee.votingRights at before ⊢
    omega
  have collected : ∀ weight : UInt64, weight.toNat ≤ ((accepted ++ [(validator, signature)]).map
      fun call => committee.votingRights call.1).sum →
      Collects committee valid ⟨weight, validator :: aggregator.usedValidators,
        aggregator.partialCertificate.addSignature (validator, signature)⟩
        (accepted ++ [(validator, signature)]) := by
    intro weight below
    refine ⟨sorted, perm.trans ((collects.perm.cons _).trans (List.perm_append_singleton _ _).symm),
      fun call member => ?_, fun call member => ?_, fun call member => ?_, below⟩
    all_goals rcases List.mem_append.mp member with old | new
    · exact List.mem_cons_of_mem _ (collects.used call old)
    · rw [List.mem_singleton.mp new]
      exact List.mem_cons_self
    · exact collects.signed call old
    · rw [List.mem_singleton.mp new]
      exact signed
    · exact collects.rights call old
    · rw [List.mem_singleton.mp new]
      exact positive
  split_ifs with reached
  · -- A quorum: the certificate is handed out and the weight starts again.
    refine ⟨collected 0 (Nat.zero_le _), fun certificate returned => ?_⟩
    cases returned
    exact ⟨rfl, (UInt64.le_iff_toNat_le.mp reached).trans gathered⟩
  · exact ⟨collected _ gathered, fun _ returned => by cases returned⟩

theorem length_appendAll (committee : Committee V) (valid : V → S → Bool)
    (aggregator : SignatureAggregator H V S) (calls : List (V × S)) :
    (appendAll committee valid aggregator calls).2.length = calls.length := by
  induction calls generalizing aggregator with
  | nil => rfl
  | cons call calls ih => simp [appendAll, ih]

/-- Over a run of calls the aggregator keeps what it collects; a certificate the last call
hands out is the partial certificate, and the accepted calls weigh a quorum. -/
theorem Collects.appendAll {aggregator : SignatureAggregator H V S} {accepted : List (V × S)}
    (collects : Collects committee valid aggregator accepted) (calls : List (V × S)) :
    let run := appendAll committee valid aggregator calls
    Collects committee valid run.1 (accepted ++ acceptedCalls calls run.2) ∧
      ∀ certificate, run.2.getLast? = some (.ok (some certificate)) →
        certificate = run.1.partialCertificate ∧
          committee.quorumThreshold.toNat ≤
            ((accepted ++ acceptedCalls calls run.2).map fun call => committee.votingRights call.1).sum := by
  induction calls generalizing aggregator accepted with
  | nil => exact ⟨by simpa [SignatureAggregator.appendAll, acceptedCalls] using collects, nofun⟩
  | cons call calls ih =>
    obtain ⟨validator, signature⟩ := call
    obtain ⟨stepped, handed⟩ := collects.append validator signature
    generalize stepEq : aggregator.append committee valid validator signature = step at stepped handed
    obtain ⟨next, result⟩ := step
    obtain ⟨nextCollects, nextHanded⟩ := ih stepped
    have run : SignatureAggregator.appendAll committee valid aggregator ((validator, signature) :: calls) =
        ((SignatureAggregator.appendAll committee valid next calls).1, result :: (SignatureAggregator.appendAll committee valid next calls).2) := by
      simp [SignatureAggregator.appendAll, stepEq]
    -- The calls accepted so far, then those of the rest of the run.
    have acceptedEq : acceptedAfter accepted (validator, signature) result ++
        acceptedCalls calls (SignatureAggregator.appendAll committee valid next calls).2 =
          accepted ++ acceptedCalls ((validator, signature) :: calls)
            (result :: (SignatureAggregator.appendAll committee valid next calls).2) := by
      cases result <;> simp [acceptedAfter, acceptedCalls]
    rw [run]
    refine ⟨acceptedEq ▸ nextCollects, fun certificate last => ?_⟩
    cases calls with
    | nil =>
      -- The call was the last one: it handed out the certificate.
      simp only [SignatureAggregator.appendAll, List.getLast?_singleton, Option.some.injEq] at last
      obtain ⟨same, quorum⟩ := handed certificate last
      subst last
      have done := And.intro same quorum
      simpa [SignatureAggregator.appendAll, acceptedCalls] using done
    | cons later calls =>
      -- A later call handed it out.
      have more : (SignatureAggregator.appendAll committee valid next (later :: calls)).2 ≠ [] := by
        intro empty
        have := length_appendAll committee valid next (later :: calls)
        simp [empty] at this
      obtain ⟨first, rest, restEq⟩ := List.exists_cons_of_ne_nil more
      rw [restEq, List.getLast?_cons_cons, ← restEq] at last
      rw [← acceptedEq]
      exact nextHanded certificate last

theorem signatureAggregator_certificates (committee : Committee V) (valid : V → S → Bool)
    (value : H) (round : Nat) (fits : committee.Fits) :
    (∀ (calls : List (V × S)) (certificate : Certificate H V S),
      (appendAll committee valid (new value round) calls).2.getLast? =
          some (.ok (some certificate)) →
        let accepted := acceptedCalls calls (appendAll committee valid (new value round) calls).2
        certificate.signatures.Perm accepted ∧ (accepted.map Prod.fst).Nodup ∧
          certificate.signatures.Pairwise (·.1 < ·.1) ∧
          certificate.check committee valid = .ok certificate.value ∧
          Certificate.deserialize certificate.serialize = .ok certificate ∧
          ∀ validator, certificate.isSignedBy validator = true ↔ validator ∈ accepted.map Prod.fst) ∧
    ∀ signatures : List (V × S), (signatures.map Prod.fst).Nodup →
      (Certificate.new value round signatures).signatures.Pairwise (·.1 < ·.1) ∧
        (Certificate.new value round signatures).signatures.Perm signatures ∧
        ∀ validator, (Certificate.new value round signatures).isSignedBy validator = true ↔
          validator ∈ signatures.map Prod.fst := by
  refine ⟨fun calls certificate last => ?_, fun signatures distinct => ?_⟩
  · obtain ⟨collects, handed⟩ := (collects_new committee valid value round).appendAll calls
    obtain ⟨same, quorum⟩ := handed certificate last
    rw [List.nil_append] at collects quorum
    subst same
    -- The certificate is the partial one: sorted, and a permutation of the accepted calls.
    have names := collects.perm.map Prod.fst
    have distinct : ((SignatureAggregator.appendAll committee valid (new value round) calls).1
        |>.partialCertificate.signatures.map Prod.fst).Nodup :=
      List.pairwise_map.mpr (collects.sorted.imp ne_of_lt)
    refine ⟨collects.perm, names.nodup_iff.mp distinct, collects.sorted, ?_,
      Certificate.deserialize_serialize collects.sorted, fun validator => ?_⟩
    · have rights : ∀ signature ∈ (SignatureAggregator.appendAll committee valid (new value round)
          calls).1.partialCertificate.signatures, 0 < committee.votingRights signature.1 :=
        fun signature member => collects.rights signature (collects.perm.subset member)
      apply Certificate.check_eq_ok _ committee valid collects.sorted rights
      · -- The signers are distinct and have voting rights: their `u64` weight does not wrap.
        have members : ∀ v ∈ (SignatureAggregator.appendAll committee valid (new value round)
            calls).1.partialCertificate.signatures.map Prod.fst, v ∈ committee.validators := by
          intro v member
          obtain ⟨signature, inside, rfl⟩ := List.mem_map.mp member
          exact Committee.mem_validators_of_votingRights_pos (rights signature inside)
        have weighed := Committee.toNat_sum_weight fits distinct members
        rw [List.map_map, List.map_map] at weighed
        apply UInt64.le_iff_toNat_le.mpr
        rw [show (fun signature : V × S => committee.weight signature.1) =
            committee.weight ∘ Prod.fst from rfl, weighed, (collects.perm.map _).sum_eq]
        exact quorum
      · exact fun signature member => collects.signed signature (collects.perm.subset member)
    · rw [Certificate.isSignedBy_iff collects.sorted]
      exact names.mem_iff
  · obtain ⟨sorted, perm⟩ := Certificate.new_signatures value round distinct
    refine ⟨sorted, perm, fun validator => ?_⟩
    rw [Certificate.isSignedBy_iff sorted]
    exact (perm.map Prod.fst).mem_iff

/-- Four validators of one vote each: validator 2 signs twice, and the aggregator refuses
the second; validators 0 and 3 then make a quorum of three, and the certificate the last call
hands out passes its check. -/
theorem signatureAggregator_certificates_at_four :
    let committee : Committee Nat := ⟨{0, 1, 2, 3}, fun _ => 1⟩
    let valid : Nat → Unit → Bool := fun _ _ => true
    let calls : List (Nat × Unit) := [(2, ()), (2, ()), (0, ()), (3, ())]
    let certificate : Certificate Nat Nat Unit := ⟨7, 0, [(0, ()), (2, ()), (3, ())]⟩
    committee.Fits ∧
      (appendAll committee valid (new 7 0) calls).2.getLast? = some (.ok (some certificate)) ∧
      certificate.check committee valid = .ok 7 := by
  intro committee valid calls certificate
  have fits : committee.Fits := by decide
  have last : (appendAll committee valid (new 7 0) calls).2.getLast? =
      some (.ok (some certificate)) := by decide +kernel
  exact ⟨fits, last,
    ((signatureAggregator_certificates committee valid 7 0 fits).1 calls certificate last).2.2.2.1⟩

/-- Votes of `2 ^ 63`, `2 ^ 63` and `1` add up to `1` in a `u64`, so the quorum threshold is
`1`. Validator 0 alone reaches it and the aggregator hands out a certificate; validator 1
reaches it again, and the second certificate, signed by 0 and 1, weighs `2 ^ 64`, which
`check_signatures` wraps to `0`: its check fails. -/
theorem appendAll_certificate_fails_check_when_votes_wrap :
    let committee : Committee Nat :=
      ⟨{0, 1, 2}, fun v => if v = 2 then 1 else 9223372036854775808⟩
    let valid : Nat → Unit → Bool := fun _ _ => true
    let second : Certificate Nat Nat Unit := ⟨7, 0, [(0, ()), (1, ())]⟩
    (appendAll committee valid (new 7 0) [(0, ()), (1, ())]).2 =
        [.ok (some ⟨7, 0, [(0, ())]⟩), .ok (some second)] ∧
      second.check committee valid = .error .certificateRequiresQuorum := by
  decide +kernel

end SignatureAggregator

end Certificates

end Linera.Chain.DataTypes
