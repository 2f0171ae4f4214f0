import Mathlib
import Linera.Execution.Committee
import Linera.Lib.Except

set_option autoImplicit false

/-! The client's quorum loop (`communicate_with_quorum`, `linera-core/src/updater.rs`).

The client sends one request to every validator of its list with voting rights and folds
the answers as they arrive. The weight of each answer leaves the votes still expected; a
value adds it to the score of its key (`group_by`), an error to the score of the error. An
error whose score reaches the validity threshold was returned by an honest validator: it
ends the call. Once a key reaches a quorum, or no key can, the loop gives the others a
grace period and stops; it also stops when no answer comes in time. The call returns the
key with a quorum and its values, or else a sample of the errors, the heaviest first.

Which answers arrive before the loop stops, and in which order, is up to the network: the
model takes them as a list in which each validator queried appears at most once
(`Arrivals`), and its results hold for every such list. After the answers of any prefix
of that list, the tally holds exactly the weights and values of that prefix (`Counts`).

The votes, the scores and the votes still expected are `u64`, added and subtracted without
checks. While the committee's votes fit (`Committee.Fits`) and each validator answers once,
nothing wraps, and the tally is exact over the numbers.

The maps of scores are `HashMap`s, whose order the source leaves unspecified; here they are
association lists. With distinct validators at most one key has a quorum, so the key
returned does not depend on that order (`communicateWithQuorum_eq_ok_iff`). -/

namespace Linera.Core

open Linera.Chain.Manager Quorum

inductive CommunicationError (E : Type) where
  | trusted (error : E)
  | sample (errors : List E)
  deriving DecidableEq, Repr

variable {V K E Val : Type}

/-- The local state of the loop of `communicate_with_quorum`; its counts are `u64`. -/
structure Tally (K E Val : Type) where
  remainingVotes : UInt64
  highestKeyScore : UInt64
  valueScores : AList fun _ : K => UInt64 × List Val
  errorScores : AList fun _ : E => UInt64
  /-- Whether `end_time` is set. -/
  ending : Bool

namespace Tally

def start (committee : Committee V) : Tally K E Val := ⟨committee.totalVotes, 0, ∅, ∅, false⟩

/-- After an answer that does not end the call: the end is scheduled once a key has a
quorum or no key can reach one. -/
def scheduleEnd (committee : Committee V) (tally : Tally K E Val) : Tally K E Val :=
  if !tally.ending && (committee.quorumThreshold ≤ tally.highestKeyScore ||
      tally.highestKeyScore + tally.remainingVotes < committee.quorumThreshold) then
    { tally with ending := true }
  else tally

section Fields

variable {committee : Committee V} {tally : Tally K E Val}

@[simp] theorem scheduleEnd_remainingVotes :
    (scheduleEnd committee tally).remainingVotes = tally.remainingVotes := by
  unfold scheduleEnd
  split <;> rfl

@[simp] theorem scheduleEnd_highestKeyScore :
    (scheduleEnd committee tally).highestKeyScore = tally.highestKeyScore := by
  unfold scheduleEnd
  split <;> rfl

@[simp] theorem scheduleEnd_valueScores :
    (scheduleEnd committee tally).valueScores = tally.valueScores := by
  unfold scheduleEnd
  split <;> rfl

@[simp] theorem scheduleEnd_errorScores :
    (scheduleEnd committee tally).errorScores = tally.errorScores := by
  unfold scheduleEnd
  split <;> rfl

/-- The condition on which the loop schedules its end, over the numbers: a key has a
quorum, or no key can reach one with the votes still expected. -/
def Decided (committee : Committee V) (tally : Tally K E Val) : Prop :=
  committee.quorumThreshold.toNat ≤ tally.highestKeyScore.toNat ∨
    tally.highestKeyScore.toNat + tally.remainingVotes.toNat < committee.quorumThreshold.toNat

/-- While the highest score and the votes still expected add up without wrapping, the loop
schedules its end on a decided outcome. -/
theorem scheduleEnd_ending (committee : Committee V) (tally : Tally K E Val)
    (small : tally.highestKeyScore.toNat + tally.remainingVotes.toNat < 2 ^ 64) :
    (scheduleEnd committee tally).ending = true ↔ tally.ending = true ∨ tally.Decided committee := by
  have sum : (tally.highestKeyScore + tally.remainingVotes).toNat =
      tally.highestKeyScore.toNat + tally.remainingVotes.toNat := by
    rw [UInt64.toNat_add, Nat.mod_eq_of_lt small]
  have condition : (committee.quorumThreshold ≤ tally.highestKeyScore ∨
      tally.highestKeyScore + tally.remainingVotes < committee.quorumThreshold) ↔
        tally.Decided committee := by
    rw [UInt64.le_iff_toNat_le, UInt64.lt_iff_toNat_lt, sum]
    rfl
  unfold scheduleEnd
  by_cases ended : tally.ending = true
  · split <;> simp [ended]
  · split
    · next decided =>
        simp only [Bool.and_eq_true, Bool.not_eq_eq_eq_not, Bool.not_true, Bool.or_eq_true,
          decide_eq_true_eq] at decided
        simp [condition.mp decided.2]
    · next undecided =>
        simp only [Bool.and_eq_true, Bool.not_eq_eq_eq_not, Bool.not_true, Bool.or_eq_true,
          decide_eq_true_eq, not_and] at undecided
        simp only [ended, false_or, Bool.false_eq_true]
        exact ⟨fun absurd => absurd.elim,
          fun decided => undecided (by simpa using ended) (condition.mpr decided)⟩

end Fields

end Tally

variable [DecidableEq V] [DecidableEq K] [DecidableEq E]

/-- The validators the request goes to: the clients with voting rights. -/
def queried (committee : Committee V) (validatorClients : List V) : List V :=
  validatorClients.filter fun name => 0 < committee.weight name

/-- The validators whose answers arrive before the loop stops, in order of arrival: each
queried validator answers at most once. -/
structure Arrivals (committee : Committee V) (validatorClients : List V) where
  order : List V
  queried : order.Subperm (queried committee validatorClients)

namespace Tally

/-- One answer of the loop, in `u64` arithmetic without checks; an error trusted by the
validity threshold ends the call. -/
def receive (committee : Committee V) (groupBy : Val → K) (tally : Tally K E Val)
    (answer : V × Except E Val) : Except E (Tally K E Val) :=
  let weight := committee.weight answer.1
  let tally := { tally with remainingVotes := tally.remainingVotes - weight }
  match answer.2 with
  | .ok value =>
      let key := groupBy value
      let entry := (tally.valueScores.lookup key).getD (0, [])
      let score := entry.1 + weight
      .ok (scheduleEnd committee { tally with
        valueScores := tally.valueScores.insert key (score, entry.2 ++ [value])
        highestKeyScore := max tally.highestKeyScore score })
  | .error error =>
      let score := (tally.errorScores.lookup error).getD 0 + weight
      if committee.validityThreshold ≤ score then .error error
      else .ok (scheduleEnd committee { tally with
        errorScores := tally.errorScores.insert error score })

end Tally

/-- `communicate_with_quorum`: `execute` gives the answer of each validator, and `arrivals`
the answers that come before the loop stops, in order. -/
def communicateWithQuorum (committee : Committee V) (validatorClients : List V)
    (groupBy : Val → K) (execute : V → Except E Val)
    (arrivals : Arrivals committee validatorClients) :
    Except (CommunicationError E) (K × List Val) :=
  match (arrivals.order.map fun name => (name, execute name)).foldlM
      (Tally.receive committee groupBy) (Tally.start committee) with
  | .error error => .error (.trusted error)
  | .ok tally =>
      match tally.valueScores.entries.find? fun entry =>
          committee.quorumThreshold ≤ entry.2.1 with
      | some entry => .ok (entry.1, entry.2.2)
      | none =>
          .error (.sample (((tally.errorScores.entries.mergeSort fun first second =>
            second.2 ≤ first.2).map (·.1)).take 4))

section Counts

variable (committee : Committee V) (groupBy : Val → K) (execute : V → Except E Val)

/-- Whether a validator answered with a value of a key. -/
def answersKey (key : K) (name : V) : Bool :=
  match execute name with
  | .ok value => groupBy value = key
  | .error _ => false

/-- Whether a validator answered with an error. -/
def answersError (error : E) (name : V) : Bool :=
  match execute name with
  | .ok _ => false
  | .error other => other = error

/-- The values of a key among the answers of `order`, in order. -/
def valuesOf (key : K) (order : List V) : List Val :=
  order.filterMap fun name =>
    match execute name with
    | .ok value => if groupBy value = key then some value else none
    | .error _ => none

/-- The tally after the answers of `order`: the weight and the values of each key, the
weight of each error, and the votes of the validators that have not answered. -/
structure Counts (order : List V) (tally : Tally K E Val) : Prop where
  remaining : tally.remainingVotes.toNat =
    committee.totalVotes.toNat - weightWhere committee.votingRights order fun _ => true
  scores : ∀ key, ((tally.valueScores.lookup key).getD (0, [])).1.toNat =
    weightWhere committee.votingRights order (answersKey groupBy execute key)
  values : ∀ key, ((tally.valueScores.lookup key).getD (0, [])).2 =
    valuesOf groupBy execute key order
  errors : ∀ error, ((tally.errorScores.lookup error).getD 0).toNat =
    weightWhere committee.votingRights order (answersError execute error)
  answered : ∀ error ∈ tally.errorScores.keys, ∃ name ∈ order, execute name = .error error
  highest : ∀ key, weightWhere committee.votingRights order (answersKey groupBy execute key) ≤
    tally.highestKeyScore.toNat
  attained : tally.highestKeyScore.toNat = 0 ∨
    ∃ key, weightWhere committee.votingRights order (answersKey groupBy execute key) =
      tally.highestKeyScore.toNat

end Counts

section Counts

variable {committee : Committee V} {groupBy : Val → K} {execute : V → Except E Val}

omit [DecidableEq V] [DecidableEq E] in
theorem valuesOf_append (key : K) (order : List V) (name : V) :
    valuesOf groupBy execute key (order ++ [name]) =
      valuesOf groupBy execute key order ++ valuesOf groupBy execute key [name] := by
  simp only [valuesOf, List.filterMap_append]

omit [DecidableEq V] [DecidableEq E] in
theorem answersKey_iff (key : K) (name : V) :
    answersKey groupBy execute key name = true ↔
      ∃ value, execute name = .ok value ∧ groupBy value = key := by
  unfold answersKey
  split <;> simp [*]

omit [DecidableEq V] [DecidableEq K] in
theorem answersError_iff (error : E) (name : V) :
    answersError execute error name = true ↔ execute name = .error error := by
  unfold answersError
  split <;> simp [*]

theorem counts_start : Counts committee groupBy execute [] (Tally.start committee) where
  remaining := by simp [Tally.start]
  scores key := by simp [Tally.start]
  values key := by simp [Tally.start, valuesOf]
  errors error := by simp [Tally.start]
  answered error mem := by simp [Tally.start] at mem
  highest key := by simp
  attained := Or.inl rfl

theorem weightWhere_concat (order : List V) (name : V) :
    weightWhere committee.votingRights (order ++ [name]) (fun _ => true) =
      weightWhere committee.votingRights order (fun _ => true) + committee.votingRights name := by
  rw [weightWhere_append, weightWhere_singleton, if_pos rfl]

theorem Counts.remaining_sub {order : List V} {tally : Tally K E Val}
    (counts : Counts committee groupBy execute order tally) {name : V}
    (room : weightWhere committee.votingRights (order ++ [name]) (fun _ => true) ≤
      committee.totalVotes.toNat) :
    (tally.remainingVotes - committee.weight name).toNat =
      committee.totalVotes.toNat - weightWhere committee.votingRights (order ++ [name]) fun _ => true := by
  have rights : (committee.weight name).toNat = committee.votingRights name := rfl
  rw [weightWhere_concat] at room ⊢
  have held : committee.weight name ≤ tally.remainingVotes := by
    rw [UInt64.le_iff_toNat_le, counts.remaining, rights]
    omega
  rw [UInt64.toNat_sub_of_le _ _ held, counts.remaining, rights]
  omega

theorem Counts.errorScore_add {order : List V} {tally : Tally K E Val}
    (counts : Counts committee groupBy execute order tally) {name : V} {error : E}
    (room : weightWhere committee.votingRights (order ++ [name]) (fun _ => true) ≤
      committee.totalVotes.toNat)
    (answer : execute name = .error error) :
    ((tally.errorScores.lookup error).getD 0 + committee.weight name).toNat =
      weightWhere committee.votingRights (order ++ [name]) (answersError execute error) := by
  have within : weightWhere committee.votingRights order (answersError execute error) ≤
      weightWhere committee.votingRights order fun _ => true :=
    weightWhere_mono committee.votingRights fun _ _ _ => rfl
  have below := committee.totalVotes.toNat_lt
  have rights : (committee.weight name).toNat = committee.votingRights name := rfl
  rw [weightWhere_concat] at room
  rw [Quorum.toNat_add_of_lt (by rw [counts.errors, rights]; omega), counts.errors, rights,
    weightWhere_append, weightWhere_singleton]
  simp [answersError, answer]

theorem Counts.receive_value {order : List V} {tally : Tally K E Val}
    (counts : Counts committee groupBy execute order tally) {name : V} {value : Val}
    (room : weightWhere committee.votingRights (order ++ [name]) (fun _ => true) ≤
      committee.totalVotes.toNat)
    (answer : execute name = .ok value) :
    Counts committee groupBy execute (order ++ [name])
      (Tally.scheduleEnd committee { tally with
        remainingVotes := tally.remainingVotes - committee.weight name
        valueScores := tally.valueScores.insert (groupBy value)
          (((tally.valueScores.lookup (groupBy value)).getD (0, [])).1 + committee.weight name,
            ((tally.valueScores.lookup (groupBy value)).getD (0, [])).2 ++ [value])
        highestKeyScore := max tally.highestKeyScore
          (((tally.valueScores.lookup (groupBy value)).getD (0, [])).1 +
            committee.weight name) }) := by
  -- The weight of each key after the answer: only the key of the value gains.
  have gains : ∀ key, weightWhere committee.votingRights (order ++ [name])
      (answersKey groupBy execute key) =
        weightWhere committee.votingRights order (answersKey groupBy execute key) +
          if groupBy value = key then committee.votingRights name else 0 := by
    intro key
    rw [weightWhere_append, weightWhere_singleton]
    simp [answersKey, answer]
  -- The score of the key stays below the total, so adding the weight does not wrap.
  have score : (((tally.valueScores.lookup (groupBy value)).getD (0, [])).1 +
      committee.weight name).toNat =
        weightWhere committee.votingRights order (answersKey groupBy execute (groupBy value)) +
          committee.votingRights name := by
    have within : weightWhere committee.votingRights order
        (answersKey groupBy execute (groupBy value)) ≤
          weightWhere committee.votingRights order fun _ => true :=
      weightWhere_mono committee.votingRights fun _ _ _ => rfl
    have below := committee.totalVotes.toNat_lt
    have rights : (committee.weight name).toNat = committee.votingRights name := rfl
    rw [weightWhere_concat] at room
    rw [Quorum.toNat_add_of_lt (by rw [counts.scores, rights]; omega), counts.scores, rights]
  refine ⟨?_, fun key => ?_, fun key => ?_, fun error => ?_, fun error mem => ?_, fun key => ?_, ?_⟩
  · rw [Tally.scheduleEnd_remainingVotes]
    exact counts.remaining_sub room
  · rw [Tally.scheduleEnd_valueScores, gains]
    by_cases same : key = groupBy value
    · subst same
      rw [AList.lookup_insert, Option.getD_some, score, if_pos rfl]
    · rw [AList.lookup_insert_ne same, counts.scores key, if_neg (Ne.symm same), Nat.add_zero]
  · rw [Tally.scheduleEnd_valueScores, valuesOf_append]
    by_cases same : key = groupBy value
    · subst same
      rw [AList.lookup_insert, Option.getD_some, counts.values]
      simp [valuesOf, answer]
    · rw [AList.lookup_insert_ne same, counts.values key]
      simp [valuesOf, answer, Ne.symm same]
  · rw [Tally.scheduleEnd_errorScores, counts.errors error, weightWhere_append,
      weightWhere_singleton]
    simp [answersError, answer]
  · rw [Tally.scheduleEnd_errorScores] at mem
    obtain ⟨earlier, heard, failed⟩ := counts.answered error mem
    exact ⟨earlier, List.mem_append_left _ heard, failed⟩
  · rw [Tally.scheduleEnd_highestKeyScore, gains, Quorum.toNat_max, score]
    have before := counts.highest key
    by_cases same : groupBy value = key
    · subst same
      rw [if_pos rfl]
      exact le_max_right _ _
    · rw [if_neg same]
      exact before.trans (le_max_left _ _)
  · -- The new highest score is the key of the value's, or the one before, attained by a
    -- key that did not gain.
    rw [Tally.scheduleEnd_highestKeyScore, Quorum.toNat_max, score]
    by_cases grows : tally.highestKeyScore.toNat ≤
        weightWhere committee.votingRights order (answersKey groupBy execute (groupBy value)) +
          committee.votingRights name
    · refine Or.inr ⟨groupBy value, ?_⟩
      rw [gains, if_pos rfl, max_eq_right grows]
    · rw [max_eq_left (le_of_not_ge grows)]
      rcases counts.attained with zero | ⟨key, attains⟩
      · exact Or.inl zero
      · have other : groupBy value ≠ key := by
          rintro rfl
          omega
        exact Or.inr ⟨key, by rw [gains, if_neg other, Nat.add_zero, attains]⟩

theorem Counts.receive_error {order : List V} {tally : Tally K E Val}
    (counts : Counts committee groupBy execute order tally) {name : V} {error : E}
    (room : weightWhere committee.votingRights (order ++ [name]) (fun _ => true) ≤
      committee.totalVotes.toNat)
    (answer : execute name = .error error) :
    Counts committee groupBy execute (order ++ [name])
      (Tally.scheduleEnd committee { tally with
        remainingVotes := tally.remainingVotes - committee.weight name
        errorScores := tally.errorScores.insert error
          ((tally.errorScores.lookup error).getD 0 + committee.weight name) }) := by
  have unchanged : ∀ key, weightWhere committee.votingRights (order ++ [name])
      (answersKey groupBy execute key) =
        weightWhere committee.votingRights order (answersKey groupBy execute key) := by
    intro key
    rw [weightWhere_append, weightWhere_singleton]
    simp [answersKey, answer]
  have score := counts.errorScore_add room answer
  refine ⟨?_, fun key => ?_, fun key => ?_, fun other => ?_, fun other mem => ?_, fun key => ?_, ?_⟩
  · rw [Tally.scheduleEnd_remainingVotes]
    exact counts.remaining_sub room
  · rw [Tally.scheduleEnd_valueScores, unchanged, counts.scores key]
  · rw [Tally.scheduleEnd_valueScores, valuesOf_append, counts.values key]
    simp [valuesOf, answer]
  · rw [Tally.scheduleEnd_errorScores]
    by_cases same : other = error
    · subst same
      rw [AList.lookup_insert, Option.getD_some, score]
    · rw [AList.lookup_insert_ne same, counts.errors other, weightWhere_append,
        weightWhere_singleton]
      simp [answersError, answer, Ne.symm same]
  · rw [Tally.scheduleEnd_errorScores, AList.keys_insert, List.mem_cons] at mem
    rcases mem with rfl | kept
    · exact ⟨name, List.mem_append_right _ (List.mem_singleton_self name), answer⟩
    · obtain ⟨earlier, heard, failed⟩ := counts.answered other (List.mem_of_mem_erase kept)
      exact ⟨earlier, List.mem_append_left _ heard, failed⟩
  · rw [Tally.scheduleEnd_highestKeyScore, unchanged]
    exact counts.highest key
  · rw [Tally.scheduleEnd_highestKeyScore]
    simp only [unchanged]
    exact counts.attained

theorem Counts.highestKeyScore_le {order : List V} {tally : Tally K E Val}
    (counts : Counts committee groupBy execute order tally) :
    tally.highestKeyScore.toNat ≤ weightWhere committee.votingRights order fun _ => true := by
  rcases counts.attained with zero | ⟨key, attains⟩
  · omega
  · rw [← attains]
    exact weightWhere_mono committee.votingRights fun _ _ _ => rfl

theorem weightWhere_concat_le (order rest : List V) (name : V) :
    weightWhere committee.votingRights (order ++ [name]) (fun _ => true) ≤
      weightWhere committee.votingRights (order ++ name :: rest) (fun _ => true) := by
  rw [show order ++ name :: rest = order ++ [name] ++ rest by simp,
    weightWhere_append committee.votingRights (order ++ [name]) rest]
  omega

theorem Counts.receive {order : List V} {tally next : Tally K E Val}
    (counts : Counts committee groupBy execute order tally) (name : V)
    (room : weightWhere committee.votingRights (order ++ [name]) (fun _ => true) ≤
      committee.totalVotes.toNat)
    (received : tally.receive committee groupBy (name, execute name) = .ok next) :
    Counts committee groupBy execute (order ++ [name]) next := by
  unfold Tally.receive at received
  cases answer : execute name with
  | ok value =>
      rw [answer] at received
      cases received
      exact counts.receive_value room answer
  | error error =>
      rw [answer] at received
      dsimp only at received
      split at received
      · cases received
      · cases received
        exact counts.receive_error room answer

theorem Counts.receive_eq_error {order : List V} {tally : Tally K E Val}
    (counts : Counts committee groupBy execute order tally) (name : V) {error : E}
    (room : weightWhere committee.votingRights (order ++ [name]) (fun _ => true) ≤
      committee.totalVotes.toNat)
    (received : tally.receive committee groupBy (name, execute name) = .error error) :
    execute name = .error error ∧ committee.validityThreshold.toNat ≤
      weightWhere committee.votingRights (order ++ [name]) (answersError execute error) := by
  unfold Tally.receive at received
  cases answer : execute name with
  | ok value =>
      rw [answer] at received
      cases received
  | error other =>
      rw [answer] at received
      dsimp only at received
      split at received
      · next trusted =>
          cases received
          refine ⟨rfl, ?_⟩
          rw [← counts.errorScore_add room answer]
          exact UInt64.le_iff_toNat_le.mp trusted
      · cases received

theorem Counts.foldlM_eq_ok {order : List V} {tally final : Tally K E Val}
    (counts : Counts committee groupBy execute order tally) (rest : List V)
    (room : weightWhere committee.votingRights (order ++ rest) (fun _ => true) ≤
      committee.totalVotes.toNat)
    (folded : (rest.map fun name => (name, execute name)).foldlM
      (Tally.receive committee groupBy) tally = .ok final) :
    Counts committee groupBy execute (order ++ rest) final := by
  induction rest generalizing order tally with
  | nil =>
      cases folded
      rwa [List.append_nil]
  | cons name rest ih =>
      rw [List.map_cons, List.foldlM_cons, Except.bind_eq_ok_iff] at folded
      obtain ⟨next, received, folded⟩ := folded
      have regrouped : order ++ name :: rest = order ++ [name] ++ rest := by simp
      rw [regrouped] at room ⊢
      exact ih (counts.receive name ((weightWhere_concat_le order rest name).trans
        (regrouped ▸ room)) received) room folded

theorem Counts.foldlM_eq_error {order : List V} {tally : Tally K E Val}
    (counts : Counts committee groupBy execute order tally) (rest : List V) {error : E}
    (room : weightWhere committee.votingRights (order ++ rest) (fun _ => true) ≤
      committee.totalVotes.toNat)
    (folded : (rest.map fun name => (name, execute name)).foldlM
      (Tally.receive committee groupBy) tally = .error error) :
    ∃ before name, before ++ [name] <+: rest ∧ execute name = .error error ∧
      committee.validityThreshold.toNat ≤
        weightWhere committee.votingRights (order ++ before ++ [name]) (answersError execute error) := by
  induction rest generalizing order tally with
  | nil => cases folded
  | cons name rest ih =>
      rw [List.map_cons, List.foldlM_cons] at folded
      have first := (weightWhere_concat_le order rest name).trans room
      have regrouped : order ++ name :: rest = order ++ [name] ++ rest := by simp
      cases received : tally.receive committee groupBy (name, execute name) with
      | error trusted =>
          -- This answer ends the call.
          rw [received, Except.error_bind] at folded
          cases folded
          obtain ⟨failed, reaches⟩ := counts.receive_eq_error name first received
          exact ⟨[], name, ⟨rest, rfl⟩, failed, by rwa [List.append_nil]⟩
      | ok next =>
          -- A later answer ends it.
          rw [received, Except.ok_bind] at folded
          obtain ⟨before, last, upTo, failed, reaches⟩ :=
            ih (counts.receive name first received) (regrouped ▸ room) folded
          refine ⟨name :: before, last, List.cons_prefix_cons.mpr ⟨rfl, upTo⟩, failed, ?_⟩
          simpa only [List.append_assoc, List.singleton_append, List.cons_append, List.nil_append]
            using reaches

/-- An answer whose weight was still expected schedules the end only on a decided outcome,
and keeps a decided outcome decided: scores grow by at most the weight that leaves the
votes still expected. -/
theorem Counts.receive_ending {order : List V} {tally next : Tally K E Val}
    (counts : Counts committee groupBy execute order tally) {name : V}
    (room : weightWhere committee.votingRights (order ++ [name]) (fun _ => true) ≤
      committee.totalVotes.toNat)
    (ended : tally.ending = true → tally.Decided committee)
    (received : tally.receive committee groupBy (name, execute name) = .ok next) :
    next.ending = true → next.Decided committee := by
  have spent := counts.remaining_sub room
  have rights : (committee.weight name).toNat = committee.votingRights name := rfl
  obtain ⟨middle, rfl, sameEnding, grows, bounded, remainingEq⟩ : ∃ middle : Tally K E Val,
      next = Tally.scheduleEnd committee middle ∧ middle.ending = tally.ending ∧
        tally.highestKeyScore.toNat ≤ middle.highestKeyScore.toNat ∧
        middle.highestKeyScore.toNat ≤ tally.highestKeyScore.toNat + committee.votingRights name ∧
        middle.remainingVotes = tally.remainingVotes - committee.weight name := by
    unfold Tally.receive at received
    cases answer : execute name with
    | ok value =>
        rw [answer] at received
        cases received
        have stored : ((tally.valueScores.lookup (groupBy value)).getD (0, [])).1.toNat ≤
            tally.highestKeyScore.toNat := by
          rw [counts.scores]
          exact counts.highest _
        have added := Quorum.toNat_add_le ((tally.valueScores.lookup (groupBy value)).getD (0, [])).1
          (committee.weight name)
        refine ⟨_, rfl, rfl, ?_, ?_, rfl⟩
        · dsimp only
          rw [Quorum.toNat_max]
          exact le_max_left _ _
        · dsimp only
          rw [Quorum.toNat_max]
          rw [rights] at added
          exact max_le (Nat.le_add_right _ _) (by omega)
    | error error =>
        rw [answer] at received
        dsimp only at received
        split at received
        · cases received
        · cases received
          exact ⟨_, rfl, rfl, le_refl _, Nat.le_add_right _ _, rfl⟩
  -- The highest score and the votes still expected add up to at most the total.
  have highest := counts.highestKeyScore_le
  have below := committee.totalVotes.toNat_lt
  have total := counts.remaining
  rw [← remainingEq, weightWhere_concat] at spent
  rw [weightWhere_concat] at room
  have small : middle.highestKeyScore.toNat + middle.remainingVotes.toNat < 2 ^ 64 := by
    rw [spent]
    omega
  rw [Tally.scheduleEnd_ending committee middle small, sameEnding]
  unfold Tally.Decided
  rw [Tally.scheduleEnd_highestKeyScore, Tally.scheduleEnd_remainingVotes]
  rintro (wasEnding | decided)
  · rcases ended wasEnding with reached | unreachable
    · exact Or.inl (reached.trans grows)
    · exact Or.inr (by rw [spent]; omega)
  · exact decided

theorem Counts.foldlM_ending {order : List V} {tally final : Tally K E Val}
    (counts : Counts committee groupBy execute order tally) (rest : List V)
    (room : weightWhere committee.votingRights (order ++ rest) (fun _ => true) ≤
      committee.totalVotes.toNat)
    (ended : tally.ending = true → tally.Decided committee)
    (folded : (rest.map fun name => (name, execute name)).foldlM
      (Tally.receive committee groupBy) tally = .ok final) :
    final.ending = true → final.Decided committee := by
  induction rest generalizing order tally with
  | nil =>
      cases folded
      exact ended
  | cons name rest ih =>
      rw [List.map_cons, List.foldlM_cons, Except.bind_eq_ok_iff] at folded
      obtain ⟨next, received, folded⟩ := folded
      have first := (weightWhere_concat_le order rest name).trans room
      have regrouped : order ++ name :: rest = order ++ [name] ++ rest := by simp
      exact ih (counts.receive name first received) (regrouped ▸ room)
        (counts.receive_ending first ended received) folded

end Counts

section Arrivals

variable {committee : Committee V} {validatorClients : List V}

theorem Arrivals.nodup (arrivals : Arrivals committee validatorClients)
    (distinct : validatorClients.Nodup) : arrivals.order.Nodup := by
  obtain ⟨reordered, permuted, sublist⟩ := arrivals.queried
  exact permuted.nodup_iff.mp ((distinct.filter _).sublist sublist)

theorem Arrivals.mem_validators (arrivals : Arrivals committee validatorClients) {name : V}
    (arrived : name ∈ arrivals.order) : name ∈ committee.validators := by
  have asked := (List.mem_filter.mp (arrivals.queried.subset arrived)).2
  by_contra outside
  simp [Committee.weight, outside] at asked

theorem Arrivals.weightWhere_le (arrivals : Arrivals committee validatorClients)
    (fits : committee.Fits) (distinct : validatorClients.Nodup) (test : V → Bool) :
    weightWhere committee.votingRights arrivals.order test ≤ committee.totalVotes.toNat := by
  rw [Committee.toNat_totalVotes fits]
  exact weightWhere_le_sum committee.votingRights (arrivals.nodup distinct)
    (fun _ arrived => arrivals.mem_validators arrived) test

end Arrivals

section Call

variable {committee : Committee V} {validatorClients : List V} {groupBy : Val → K}
  {execute : V → Except E Val}

omit [DecidableEq E] in
/-- Two keys answered by disjoint validators cannot both weigh a quorum of a committee. -/
theorem quorum_key_unique (fits : committee.Fits) (distinct : validatorClients.Nodup)
    (arrivals : Arrivals committee validatorClients) {key other : K}
    (keyQuorum : committee.quorumThreshold.toNat ≤
      weightWhere committee.votingRights arrivals.order (answersKey groupBy execute key))
    (otherQuorum : committee.quorumThreshold.toNat ≤
      weightWhere committee.votingRights arrivals.order (answersKey groupBy execute other)) :
    key = other := by
  by_contra different
  have disjoint : weightWhere committee.votingRights arrivals.order (answersKey groupBy execute key) +
      weightWhere committee.votingRights arrivals.order (answersKey groupBy execute other) ≤
        weightWhere committee.votingRights arrivals.order fun _ => true :=
    weightWhere_add_le committee.votingRights fun name _ answers => by
      obtain ⟨value, answer, grouped⟩ := (answersKey_iff key name).mp answers
      rw [← Bool.not_eq_true, answersKey_iff]
      rintro ⟨other, answered, regrouped⟩
      rw [answer, Except.ok.injEq] at answered
      exact different (grouped.symm.trans (answered ▸ regrouped))
  have bound := arrivals.weightWhere_le fits distinct fun _ => true
  rw [Committee.toNat_quorumThreshold fits] at keyQuorum otherQuorum
  omega

theorem error_lt_validityThreshold (fits : committee.Fits) (distinct : validatorClients.Nodup)
    (arrivals : Arrivals committee validatorClients) {key : K}
    (keyQuorum : committee.quorumThreshold.toNat ≤
      weightWhere committee.votingRights arrivals.order (answersKey groupBy execute key))
    (error : E) :
    weightWhere committee.votingRights arrivals.order (answersError execute error) <
      committee.validityThreshold.toNat := by
  have disjoint : weightWhere committee.votingRights arrivals.order (answersKey groupBy execute key) +
      weightWhere committee.votingRights arrivals.order (answersError execute error) ≤
        weightWhere committee.votingRights arrivals.order fun _ => true :=
    weightWhere_add_le committee.votingRights fun name _ answers => by
      obtain ⟨value, answer, -⟩ := (answersKey_iff key name).mp answers
      rw [← Bool.not_eq_true, answersError_iff, answer]
      exact fun same => by cases same
  have bound := arrivals.weightWhere_le fits distinct fun _ => true
  -- The thresholds add up to one more than the total: `q + v = N + 1`.
  have thresholds : committee.totalVotes.toNat + 1 ≤
      committee.quorumThreshold.toNat + committee.validityThreshold.toNat := by
    rw [Committee.toNat_quorumThreshold fits, Committee.toNat_validityThreshold fits]
    omega
  omega

theorem counts_of_foldlM (fits : committee.Fits) (distinct : validatorClients.Nodup)
    (arrivals : Arrivals committee validatorClients) {tally : Tally K E Val}
    (folded : (arrivals.order.map fun name => (name, execute name)).foldlM
      (Tally.receive committee groupBy) (Tally.start committee) = .ok tally) :
    Counts committee groupBy execute arrivals.order tally :=
  List.nil_append arrivals.order ▸ counts_start.foldlM_eq_ok arrivals.order
    (by rw [List.nil_append]; exact arrivals.weightWhere_le fits distinct _) folded

theorem Counts.score_of_mem {order : List V} {tally : Tally K E Val}
    (counts : Counts committee groupBy execute order tally)
    {entry : (_ : K) × (UInt64 × List Val)} (mem : entry ∈ tally.valueScores.entries) :
    entry.2.1.toNat = weightWhere committee.votingRights order (answersKey groupBy execute entry.1) ∧
      entry.2.2 = valuesOf groupBy execute entry.1 order := by
  have looked : tally.valueScores.lookup entry.1 = some entry.2 := AList.mem_lookup_iff.mpr mem
  have scored := counts.scores entry.1
  have valued := counts.values entry.1
  rw [looked, Option.getD_some] at scored valued
  exact ⟨scored, valued⟩

theorem communicateWithQuorum_quorum (fits : committee.Fits) (distinct : validatorClients.Nodup)
    {arrivals : Arrivals committee validatorClients} {key : K} {values : List Val}
    (returned : communicateWithQuorum committee validatorClients groupBy execute arrivals =
      .ok (key, values)) :
    committee.quorumThreshold.toNat ≤
        weightWhere committee.votingRights arrivals.order (answersKey groupBy execute key) ∧
      values = valuesOf groupBy execute key arrivals.order := by
  unfold communicateWithQuorum at returned
  split at returned
  · cases returned
  · next tally folded =>
      have counts := counts_of_foldlM fits distinct arrivals folded
      split at returned
      · next entry found =>
          simp only [Except.ok.injEq, Prod.mk.injEq] at returned
          obtain ⟨rfl, rfl⟩ := returned
          have reaches := List.find?_some found
          obtain ⟨scored, valued⟩ := counts.score_of_mem (List.mem_of_find?_eq_some found)
          rw [decide_eq_true_eq, UInt64.le_iff_toNat_le, scored] at reaches
          exact ⟨reaches, valued⟩
      · cases returned

/-- When the answers give a key a quorum, the call returns it with its values: no trusted
error can come first, and no other key has a quorum. -/
theorem communicateWithQuorum_of_quorum (fits : committee.Fits) (distinct : validatorClients.Nodup)
    (arrivals : Arrivals committee validatorClients) {key : K}
    (keyQuorum : committee.quorumThreshold.toNat ≤
      weightWhere committee.votingRights arrivals.order (answersKey groupBy execute key)) :
    communicateWithQuorum committee validatorClients groupBy execute arrivals =
      .ok (key, valuesOf groupBy execute key arrivals.order) := by
  unfold communicateWithQuorum
  split
  · -- A trusted error weighs the validity threshold over a prefix of the answers.
    next error folded =>
      obtain ⟨before, name, upTo, -, reaches⟩ := counts_start.foldlM_eq_error _
        (by rw [List.nil_append]; exact arrivals.weightWhere_le fits distinct _) folded
      obtain ⟨after, whole⟩ := upTo
      have within := error_lt_validityThreshold fits distinct arrivals keyQuorum error
      rw [← whole, weightWhere_append] at within
      rw [List.nil_append] at reaches
      omega
  · next tally folded =>
      have counts := counts_of_foldlM fits distinct arrivals folded
      -- The key has an entry, since its weight is not zero.
      have present : ∃ entry, tally.valueScores.lookup key = some entry := by
        have scored := counts.scores key
        cases looked : tally.valueScores.lookup key with
        | none =>
            rw [looked, Option.getD_none] at scored
            rw [Committee.toNat_quorumThreshold fits] at keyQuorum
            simp at scored
            omega
        | some entry => exact ⟨entry, rfl⟩
      obtain ⟨entry, looked⟩ := present
      split
      · next found foundEq =>
          -- The entry found has a quorum, so it is the key's.
          obtain ⟨scored, valued⟩ := counts.score_of_mem (List.mem_of_find?_eq_some foundEq)
          have reaches := List.find?_some foundEq
          rw [decide_eq_true_eq, UInt64.le_iff_toNat_le, scored] at reaches
          have same := quorum_key_unique fits distinct arrivals reaches keyQuorum
          rw [valued, same]
      · next missing =>
          have entered := AList.mem_lookup_iff.mp looked
          have below := List.find?_eq_none.mp missing _ entered
          obtain ⟨scored, -⟩ := counts.score_of_mem entered
          simp only [decide_eq_true_eq, UInt64.le_iff_toNat_le, scored] at below
          exact absurd keyQuorum below

/-- With distinct clients and votes that fit, a call returns a key and values exactly when
the key weighs a quorum among the answers that arrived, and the values are theirs, in order
of arrival; the order of the maps of scores does not matter. -/
theorem communicateWithQuorum_eq_ok_iff (fits : committee.Fits) (distinct : validatorClients.Nodup)
    (arrivals : Arrivals committee validatorClients) (key : K) (values : List Val) :
    communicateWithQuorum committee validatorClients groupBy execute arrivals =
        .ok (key, values) ↔
      committee.quorumThreshold.toNat ≤
          weightWhere committee.votingRights arrivals.order (answersKey groupBy execute key) ∧
        values = valuesOf groupBy execute key arrivals.order := by
  constructor
  · exact communicateWithQuorum_quorum fits distinct
  · rintro ⟨keyQuorum, rfl⟩
    exact communicateWithQuorum_of_quorum fits distinct arrivals keyQuorum

/-- Four validators of one vote each; the three that answer in time before the fourth
fails agree on `7`. -/
theorem communicateWithQuorum_eq_ok_iff_at_four :
    let committee : Committee Nat := ⟨{0, 1, 2, 3}, fun _ => 1⟩
    let execute : Nat → Except String Nat := fun name =>
      if name = 3 then .error "timeout" else .ok 7
    committee.Fits ∧ [0, 1, 2, 3].Nodup ∧
      (communicateWithQuorum committee [0, 1, 2, 3] id execute ⟨[2, 0, 3, 1], by decide⟩ =
          .ok (7, [7, 7, 7]) ↔
        committee.quorumThreshold.toNat ≤
            weightWhere committee.votingRights [2, 0, 3, 1] (answersKey id execute 7) ∧
          [7, 7, 7] = valuesOf id execute 7 [2, 0, 3, 1]) :=
  ⟨by decide, by decide,
    communicateWithQuorum_eq_ok_iff (by decide) (by decide) ⟨[2, 0, 3, 1], by decide⟩ 7 [7, 7, 7]⟩

/-- A trusted error comes from an honest validator: when the votes fit and the faulty
validators weigh less than the validity threshold, one that is not faulty answered with
it. -/
theorem communicateWithQuorum_trusted (fits : committee.Fits) (distinct : validatorClients.Nodup)
    (arrivals : Arrivals committee validatorClients) {error : E}
    (returned : communicateWithQuorum committee validatorClients groupBy execute arrivals =
      .error (.trusted error))
    (faulty : Finset V)
    (fewFaulty : ∑ v ∈ faulty, committee.votingRights v < committee.validityThreshold.toNat) :
    ∃ name ∈ arrivals.order, name ∉ faulty ∧ execute name = .error error := by
  unfold communicateWithQuorum at returned
  split at returned
  · next trusted folded =>
      cases returned
      obtain ⟨before, last, upTo, -, reaches⟩ := counts_start.foldlM_eq_error _
        (by rw [List.nil_append]; exact arrivals.weightWhere_le fits distinct _) folded
      rw [List.nil_append] at reaches
      -- The answers up to the last one are distinct, so their weight is that of a set.
      have distinctBefore : (before ++ [last]).Nodup :=
        (arrivals.nodup distinct).sublist upTo.sublist
      rw [weightWhere_eq_sum committee.votingRights distinctBefore] at reaches
      obtain ⟨name, chosen, honest⟩ :=
        exists_not_mem_of_lt committee.votingRights (lt_of_lt_of_le fewFaulty reaches)
      obtain ⟨arrived, answers⟩ := List.mem_filter.mp (List.mem_toFinset.mp chosen)
      exact ⟨name, upTo.subset arrived, honest, (answersError_iff error name).mp answers⟩
  · split at returned <;> cases returned

/-- Two of four validators fail alike, and one of them is not the faulty one. -/
theorem communicateWithQuorum_trusted_at_four :
    let committee : Committee Nat := ⟨{0, 1, 2, 3}, fun _ => 1⟩
    let execute : Nat → Except String Nat := fun name =>
      if name < 2 then .error "unavailable" else .ok name
    committee.Fits ∧ [0, 1, 2, 3].Nodup ∧
      communicateWithQuorum committee [0, 1, 2, 3] id execute ⟨[0, 1], by decide⟩ =
        .error (.trusted "unavailable") ∧
      ∑ v ∈ ({1} : Finset Nat), committee.votingRights v < committee.validityThreshold.toNat ∧
      ∃ name ∈ [0, 1], name ∉ ({1} : Finset Nat) ∧ execute name = .error "unavailable" := by
  intro committee execute
  have returned : communicateWithQuorum committee [0, 1, 2, 3] id execute ⟨[0, 1], by decide⟩ =
      .error (.trusted "unavailable") := by decide
  exact ⟨by decide, by decide, returned, by decide,
    communicateWithQuorum_trusted (by decide) (by decide) _ returned {1} (by decide)⟩

/-- Once every validator that is not faulty has answered with a value of one key, and the
faulty ones weigh less than the validity threshold, the call returns that key. -/
theorem communicateWithQuorum_of_honest (fits : committee.Fits) (distinct : validatorClients.Nodup)
    (arrivals : Arrivals committee validatorClients) (faulty : Finset V)
    (fewFaulty : ∑ v ∈ faulty, committee.votingRights v < committee.validityThreshold.toNat) (key : K)
    (honest : ∀ v ∈ committee.validators \ faulty,
      v ∈ arrivals.order ∧ ∃ value, execute v = .ok value ∧ groupBy value = key) :
    communicateWithQuorum committee validatorClients groupBy execute arrivals =
      .ok (key, valuesOf groupBy execute key arrivals.order) := by
  apply communicateWithQuorum_of_quorum fits distinct arrivals
  calc committee.quorumThreshold.toNat
      ≤ ∑ v ∈ committee.validators \ faulty, committee.votingRights v :=
        Committee.quorumThreshold_le_sdiff fits fewFaulty
    _ ≤ weightWhere committee.votingRights arrivals.order (answersKey groupBy execute key) :=
        sum_le_weightWhere committee.votingRights (arrivals.nodup distinct) fun v member =>
          ⟨(honest v member).1, (answersKey_iff key v).mpr (honest v member).2⟩

/-- Four validators of one vote each, the fourth faulty: the three others answer `7`. -/
theorem communicateWithQuorum_of_honest_at_four :
    let committee : Committee Nat := ⟨{0, 1, 2, 3}, fun _ => 1⟩
    let execute : Nat → Except String Nat := fun name =>
      if name = 3 then .error "timeout" else .ok 7
    committee.Fits ∧ [0, 1, 2, 3].Nodup ∧
      ∑ v ∈ ({3} : Finset Nat), committee.votingRights v < committee.validityThreshold.toNat ∧
      (∀ v ∈ committee.validators \ {3},
        v ∈ [2, 0, 3, 1] ∧ ∃ value, execute v = .ok value ∧ id value = 7) ∧
      communicateWithQuorum committee [0, 1, 2, 3] id execute ⟨[2, 0, 3, 1], by decide⟩ =
        .ok (7, valuesOf id execute 7 [2, 0, 3, 1]) := by
  intro committee execute
  have honest : ∀ v ∈ committee.validators \ {3},
      v ∈ [2, 0, 3, 1] ∧ ∃ value, execute v = .ok value ∧ id value = 7 := by
    intro v member
    have checked : v ∈ [2, 0, 3, 1] ∧ execute v = .ok 7 := by
      revert v
      decide
    exact ⟨checked.1, 7, checked.2, rfl⟩
  exact ⟨by decide, by decide, by decide, honest,
    communicateWithQuorum_of_honest (by decide) (by decide) ⟨[2, 0, 3, 1], by decide⟩ {3}
      (by decide) 7 honest⟩

/-- A call that returns a sample of errors found no key with a quorum, and returns at most
four distinct errors, each answered by a validator, the heaviest first. -/
theorem communicateWithQuorum_sample (fits : committee.Fits) (distinct : validatorClients.Nodup)
    {arrivals : Arrivals committee validatorClients} {errors : List E}
    (returned : communicateWithQuorum committee validatorClients groupBy execute arrivals =
      .error (.sample errors)) :
    (∀ key, weightWhere committee.votingRights arrivals.order (answersKey groupBy execute key) <
        committee.quorumThreshold.toNat) ∧
      errors.length ≤ 4 ∧ errors.Nodup ∧
      (∀ error ∈ errors, ∃ name ∈ arrivals.order, execute name = .error error) ∧
      errors.Pairwise fun first second =>
        weightWhere committee.votingRights arrivals.order (answersError execute second) ≤
          weightWhere committee.votingRights arrivals.order (answersError execute first) := by
  unfold communicateWithQuorum at returned
  split at returned
  · cases returned
  · next tally folded =>
      have counts := counts_of_foldlM fits distinct arrivals folded
      split at returned
      · cases returned
      · next missing =>
          cases returned
          -- The score of an error in the map is the weight of its answers.
          have scored : ∀ entry ∈ tally.errorScores.entries,
              entry.2.toNat =
                weightWhere committee.votingRights arrivals.order (answersError execute entry.1) :=
            fun entry mem => by
              rw [← counts.errors, AList.mem_lookup_iff.mpr mem, Option.getD_some]
          have permuted := List.mergeSort_perm tally.errorScores.entries
            fun first second => decide (second.2 ≤ first.2)
          have sorted := @List.pairwise_mergeSort _
            (fun first second : (_ : E) × UInt64 => decide (second.2 ≤ first.2))
            (fun _ _ _ first second => by
              simp only [decide_eq_true_eq, UInt64.le_iff_toNat_le] at *
              omega)
            (fun first second => by
              simp only [Bool.or_eq_true, decide_eq_true_eq, UInt64.le_iff_toNat_le]
              omega)
            tally.errorScores.entries
          refine ⟨fun key => ?_, List.length_take_le _ _, ?_, fun error mem => ?_, ?_⟩
          · -- No entry has a quorum, and a key without an entry has no weight.
            have scoredKey := counts.scores key
            cases looked : tally.valueScores.lookup key with
            | none =>
                rw [looked, Option.getD_none] at scoredKey
                rw [← scoredKey, Committee.toNat_quorumThreshold fits]
                simp
            | some entry =>
                have below := List.find?_eq_none.mp missing _ (AList.mem_lookup_iff.mp looked)
                obtain ⟨entryScore, -⟩ := counts.score_of_mem (AList.mem_lookup_iff.mp looked)
                simp only [decide_eq_true_eq, UInt64.le_iff_toNat_le, entryScore] at below
                exact Nat.lt_of_not_le below
          · exact ((permuted.map _).nodup_iff.mpr tally.errorScores.nodupKeys).sublist
              (List.take_sublist _ _)
          · obtain ⟨entry, sortedMem, rfl⟩ := List.mem_map.mp (List.mem_of_mem_take mem)
            exact counts.answered _ (List.mem_map_of_mem (permuted.subset sortedMem))
          · refine List.Pairwise.sublist (List.take_sublist _ _) (List.pairwise_map.mpr ?_)
            refine sorted.imp_of_mem fun {first second} firstMem secondMem heavier => ?_
            rw [← scored first (permuted.subset firstMem), ← scored second (permuted.subset secondMem)]
            simpa [UInt64.le_iff_toNat_le] using heavier

/-- One validator of four answers in time, with an error that is not trusted. -/
theorem communicateWithQuorum_sample_at_four :
    let committee : Committee Nat := ⟨{0, 1, 2, 3}, fun _ => 1⟩
    let execute : Nat → Except Nat Nat := fun _ => .error 5
    committee.Fits ∧ [0, 1, 2, 3].Nodup ∧
      communicateWithQuorum committee [0, 1, 2, 3] id execute ⟨[2], by decide⟩ =
        .error (.sample [5]) ∧
      (∀ key, weightWhere committee.votingRights [2] (answersKey id execute key) <
        committee.quorumThreshold.toNat) ∧
      [5].length ≤ 4 ∧ [5].Nodup ∧ (∀ error ∈ [5], ∃ name ∈ [2], execute name = .error error) ∧
      [5].Pairwise fun first second =>
        weightWhere committee.votingRights [2] (answersError execute second) ≤
          weightWhere committee.votingRights [2] (answersError execute first) := by
  intro committee execute
  have returned : communicateWithQuorum committee [0, 1, 2, 3] id execute ⟨[2], by decide⟩ =
      .error (.sample [5]) := by decide +kernel
  exact ⟨by decide, by decide, returned,
    communicateWithQuorum_sample (by decide) (by decide) returned⟩

/-- Once the loop has scheduled its end, after the answers of `before`, the outcome is
settled whatever else arrives before it stops: the key that has a quorum is returned, or
no key is. Stopping after the grace period loses no outcome that waiting for every answer
would give. -/
theorem communicateWithQuorum_settled (fits : committee.Fits) (distinct : validatorClients.Nodup)
    (arrivals : Arrivals committee validatorClients) {before after : List V}
    (parts : arrivals.order = before ++ after) {tally : Tally K E Val}
    (folded : (before.map fun name => (name, execute name)).foldlM
      (Tally.receive committee groupBy) (Tally.start committee) = .ok tally)
    (ending : tally.ending = true) :
    (∃ key, committee.quorumThreshold.toNat ≤
        weightWhere committee.votingRights before (answersKey groupBy execute key) ∧
      communicateWithQuorum committee validatorClients groupBy execute arrivals =
        .ok (key, valuesOf groupBy execute key arrivals.order)) ∨
    ∀ result, communicateWithQuorum committee validatorClients groupBy execute arrivals ≠
      .ok result := by
  have total := arrivals.weightWhere_le fits distinct fun _ => true
  rw [parts, weightWhere_append] at total
  have room : weightWhere committee.votingRights ([] ++ before) (fun _ => true) ≤
      committee.totalVotes.toNat := by
    rw [List.nil_append]
    omega
  have counts := List.nil_append before ▸ counts_start.foldlM_eq_ok before room folded
  have decided := counts_start.foldlM_ending before room (fun started => by cases started)
    folded ending
  rcases decided with reached | unreachable
  · -- A key reached a quorum among the first answers, and keeps it.
    left
    rcases counts.attained with zero | ⟨key, attains⟩
    · rw [Committee.toNat_quorumThreshold fits] at reached
      omega
    · refine ⟨key, attains ▸ reached, communicateWithQuorum_of_quorum fits distinct arrivals ?_⟩
      rw [parts, weightWhere_append]
      omega
  · -- No key can reach a quorum with the votes that were still expected.
    right
    rintro ⟨key, values⟩ returned
    have reaches := (communicateWithQuorum_quorum fits distinct returned).1
    have below := counts.highest key
    have later : weightWhere committee.votingRights after (answersKey groupBy execute key) ≤
        weightWhere committee.votingRights after fun _ => true :=
      weightWhere_mono committee.votingRights fun _ _ _ => rfl
    rw [counts.remaining] at unreachable
    rw [parts, weightWhere_append] at reaches
    omega

/-- Four validators of one vote each answer `7`: the end is scheduled after the third. -/
theorem communicateWithQuorum_settled_at_four :
    let committee : Committee Nat := ⟨{0, 1, 2, 3}, fun _ => 1⟩
    let execute : Nat → Except String Nat := fun _ => .ok 7
    let tally : Tally Nat String Nat := ⟨1, 3, AList.insert 7 (3, [7, 7, 7]) ∅, ∅, true⟩
    committee.Fits ∧ [0, 1, 2, 3].Nodup ∧
      ([0, 1, 2].map fun name => (name, execute name)).foldlM (Tally.receive committee id)
        (Tally.start committee) = .ok tally ∧
      tally.ending = true ∧
      ((∃ key, committee.quorumThreshold.toNat ≤
          weightWhere committee.votingRights [0, 1, 2] (answersKey id execute key) ∧
        communicateWithQuorum committee [0, 1, 2, 3] id execute ⟨[0, 1, 2, 3], by decide⟩ =
          .ok (key, valuesOf id execute key [0, 1, 2, 3])) ∨
      ∀ result, communicateWithQuorum committee [0, 1, 2, 3] id execute
        ⟨[0, 1, 2, 3], by decide⟩ ≠ .ok result) := by
  intro committee execute tally
  have folded : ([0, 1, 2].map fun name => (name, execute name)).foldlM
      (Tally.receive committee id) (Tally.start committee) = .ok tally := by
    dsimp only [committee, execute, tally]
    rfl
  exact ⟨by decide, by decide, folded, rfl,
    communicateWithQuorum_settled (by decide) (by decide) ⟨[0, 1, 2, 3], by decide⟩
      (show [0, 1, 2, 3] = [0, 1, 2] ++ [3] from rfl) folded rfl⟩

end Call

end Linera.Core
