import Mathlib
import Linera.Lib.DependencyOrder

set_option autoImplicit false

/-! The registry of applications (`linera-execution/src/applications.rs`).

A chain knows the descriptions of the applications it may run. An application is
registered only once the applications it requires are known. Before the messages of an
application leave a chain, `describe_applications_with_dependencies` lists the
application with everything it requires, transitively, required ones first, so that a
recipient can register them in that order.

`find_dependencies` is an iterative depth-first search. An id is visited twice: the first
time it is marked as seen and pushed back, with its unseen requirements above it; the
second time, its requirements are sorted and it is appended to the result. The stack is a
list whose head is the top of the `Vec`; the hash sets `seen` and `sorted` are lists.

The search stops on every registry, since each first visit marks a known id as seen, and
never returns an id twice. On a registry that knows every application the ids reach, with
no cycle among them, it returns exactly what the ids reach, each after all it requires
(`findDependencies_spec`); and the descriptions it gives can be registered in order on any
registry (`registerApplications_describeApplicationsWithDependencies`). -/

namespace Linera.Execution.Applications

open DependencyOrder

/-- `UserApplicationId`: the bytecode, and the message that created the application, both
as numbers. -/
structure UserApplicationId where
  bytecodeId : Nat
  creation : Nat
  deriving DecidableEq, Repr

/-- `UserApplicationDescription`; `bytecode_location` is a number. -/
structure UserApplicationDescription where
  bytecodeId : Nat
  bytecodeLocation : Nat
  creation : Nat
  parameters : List UInt8
  requiredApplicationIds : List UserApplicationId
  deriving DecidableEq, Repr, Inhabited

def UserApplicationDescription.applicationId (description : UserApplicationDescription) :
    UserApplicationId :=
  ⟨description.bytecodeId, description.creation⟩

/-- `SystemExecutionError`, as far as the registry raises it. -/
inductive SystemExecutionError where
  | unknownApplicationId (id : UserApplicationId)
  | unknownBytecodeId (id : Nat)
  deriving DecidableEq, Repr

/-- Descriptions by application id: a `MapView` of the registry, or the `HashMap` of
applications a caller registers. -/
abbrev Descriptions := AList fun _ : UserApplicationId => UserApplicationDescription

structure ApplicationRegistryView where
  publishedBytecodes : AList fun _ : Nat => Nat
  knownApplications : Descriptions

namespace ApplicationRegistryView

def describeApplication (registry : ApplicationRegistryView) (id : UserApplicationId) :
    Except SystemExecutionError UserApplicationDescription :=
  match registry.knownApplications.lookup id with
  | some description => .ok description
  | none => .error (.unknownApplicationId id)

def registerApplication (registry : ApplicationRegistryView)
    (application : UserApplicationDescription) :
    Except SystemExecutionError (ApplicationRegistryView × UserApplicationId) := do
  -- Make sure that referenced applications ids have been registered.
  application.requiredApplicationIds.forM fun requiredId =>
    discard (registry.describeApplication requiredId)
  let id := application.applicationId
  pure ({ registry with knownApplications := registry.knownApplications.insert id application }, id)

def registerNewApplication (registry : ApplicationRegistryView) (applicationId : UserApplicationId)
    (parameters : List UInt8) (requiredApplicationIds : List UserApplicationId) :
    Except SystemExecutionError ApplicationRegistryView := do
  -- Make sure that referenced applications ids have been registered.
  requiredApplicationIds.forM fun requiredId => discard (registry.describeApplication requiredId)
  let bytecodeLocation ← match registry.publishedBytecodes.lookup applicationId.bytecodeId with
    | some location => pure location
    | none => throw (.unknownBytecodeId applicationId.bytecodeId)
  let description : UserApplicationDescription :=
    ⟨applicationId.bytecodeId, bytecodeLocation, applicationId.creation, parameters,
      requiredApplicationIds⟩
  pure { registry with
    knownApplications := registry.knownApplications.insert applicationId description }

/-- The lookup of `find_dependencies` and `describe_applications_with_dependencies`: the
applications the caller registers, then the registry. -/
def lookupApplication (registry : ApplicationRegistryView) (registeredApps : Descriptions)
    (id : UserApplicationId) : Except SystemExecutionError UserApplicationDescription :=
  match registeredApps.lookup id with
  | some app => .ok app
  | none => registry.describeApplication id

def knownIds (registry : ApplicationRegistryView) (registeredApps : Descriptions) :
    List UserApplicationId :=
  registeredApps.keys ++ registry.knownApplications.keys

theorem mem_knownIds_of_lookupApplication {registry : ApplicationRegistryView}
    {registeredApps : Descriptions} {id : UserApplicationId} {app : UserApplicationDescription}
    (found : registry.lookupApplication registeredApps id = .ok app) :
    id ∈ registry.knownIds registeredApps := by
  unfold lookupApplication at found
  rcases registered : registeredApps.lookup id with _ | registeredApp
  · rw [registered] at found
    unfold describeApplication at found
    rcases known : registry.knownApplications.lookup id with _ | knownApp
    · rw [known] at found
      cases found
    · have present : id ∈ registry.knownApplications := by
        rw [← AList.lookup_isSome, known]
        rfl
      exact List.mem_append_right _ (AList.mem_keys.mp present)
  · have present : id ∈ registeredApps := by
      rw [← AList.lookup_isSome, registered]
      rfl
    exact List.mem_append_left _ (AList.mem_keys.mp present)

theorem length_filter_unseen_lt {ids seen : List UserApplicationId} {id : UserApplicationId}
    (mem : id ∈ ids) (fresh : id ∉ seen) :
    (ids.filter fun other => other ∉ id :: seen).length <
      (ids.filter fun other => other ∉ seen).length := by
  have split : (ids.filter fun other => other ∉ id :: seen) =
      (ids.filter fun other => other ∉ seen).filter fun other => other ≠ id := by
    rw [List.filter_filter]
    congr 1
    funext other
    simp
  rw [split, List.length_filter_lt_length_iff_exists]
  exact ⟨id, List.mem_filter.mpr ⟨mem, by simpa using fresh⟩, by simp⟩

/-- The loop of `find_dependencies`, from the stack, the sorted and the seen ids and the
result so far. -/
def findDependenciesLoop (registry : ApplicationRegistryView) (registeredApps : Descriptions) :
    List UserApplicationId → List UserApplicationId → List UserApplicationId →
      List UserApplicationId → Except SystemExecutionError (List UserApplicationId)
  | [], _, _, result => .ok result
  | id :: stack, sorted, seen, result =>
      if id ∈ sorted then findDependenciesLoop registry registeredApps stack sorted seen result
      else if id ∈ seen then
        -- Second time we see this entry: its dependencies are sorted.
        findDependenciesLoop registry registeredApps stack (id :: sorted) seen (result ++ [id])
      else
        match _found : registry.lookupApplication registeredApps id with
        | .error error => .error error
        | .ok app =>
            -- Schedule the unseen dependencies, above this entry for a second visit.
            findDependenciesLoop registry registeredApps
              ((app.requiredApplicationIds.filter fun child => child ∉ id :: seen) ++ id :: stack)
              sorted (id :: seen) result
termination_by stack _ seen _ =>
  (((registry.knownIds registeredApps).filter fun other => other ∉ seen).length, stack.length)
decreasing_by
  · exact Prod.Lex.right _ (Nat.lt_succ_self _)
  · exact Prod.Lex.right _ (Nat.lt_succ_self _)
  · exact Prod.Lex.left _ _
      (length_filter_unseen_lt (mem_knownIds_of_lookupApplication _found) (by assumption))

def findDependencies (registry : ApplicationRegistryView) (stack : List UserApplicationId)
    (registeredApps : Descriptions) : Except SystemExecutionError (List UserApplicationId) :=
  findDependenciesLoop registry registeredApps stack.reverse [] [] []

def describeApplicationsWithDependencies (registry : ApplicationRegistryView)
    (ids : List UserApplicationId) (extraRegisteredApps : Descriptions) :
    Except SystemExecutionError (List UserApplicationDescription) := do
  let idsWithDeps ← registry.findDependencies ids extraRegisteredApps
  idsWithDeps.mapM (registry.lookupApplication extraRegisteredApps)

/-- The loop of `SystemExecutionStateView::execute_message` on `RegisterApplications`. -/
def registerApplications (registry : ApplicationRegistryView)
    (applications : List UserApplicationDescription) :
    Except SystemExecutionError ApplicationRegistryView :=
  applications.foldlM (fun registry application => Prod.fst <$> registry.registerApplication application)
    registry

theorem findDependenciesLoop_visit {registry : ApplicationRegistryView}
    {registeredApps : Descriptions} {id : UserApplicationId}
    {stack sorted seen result : List UserApplicationId} {app : UserApplicationDescription}
    (notDone : id ∉ sorted) (fresh : id ∉ seen)
    (found : registry.lookupApplication registeredApps id = .ok app) :
    registry.findDependenciesLoop registeredApps (id :: stack) sorted seen result =
      registry.findDependenciesLoop registeredApps
        ((app.requiredApplicationIds.filter fun child => child ∉ id :: seen) ++ id :: stack)
        sorted (id :: seen) result := by
  rw [findDependenciesLoop, if_neg notDone, if_neg fresh]
  split
  · next failed =>
      rw [found] at failed
      cases failed
  · next found' =>
      rw [found] at found'
      cases found'
      rfl

theorem describeApplicationsWithDependencies_of_requiresNone (registry : ApplicationRegistryView)
    {id : UserApplicationId} {description : UserApplicationDescription}
    (known : registry.knownApplications.lookup id = some description)
    (independent : description.requiredApplicationIds = []) :
    registry.describeApplicationsWithDependencies [id] ∅ = .ok [description] := by
  have found : registry.lookupApplication ∅ id = .ok description := by
    simp [lookupApplication, describeApplication, known]
  unfold describeApplicationsWithDependencies findDependencies
  -- The first visit pushes nothing; the second sorts the id.
  rw [List.reverse_singleton, findDependenciesLoop_visit List.not_mem_nil List.not_mem_nil found,
    independent]
  simp [findDependenciesLoop, found]

/-- The sorted ids are those of the result, which has no duplicate: every turn keeps it,
cycles or not. -/
theorem findDependenciesLoop_nodup (registry : ApplicationRegistryView)
    (registeredApps : Descriptions) (stack sorted seen result : List UserApplicationId)
    (sortedResult : ∀ id, id ∈ sorted ↔ id ∈ result) (distinct : result.Nodup)
    {final : List UserApplicationId}
    (found : registry.findDependenciesLoop registeredApps stack sorted seen result = .ok final) :
    final.Nodup := by
  fun_induction registry.findDependenciesLoop registeredApps stack sorted seen result with
  | case1 => exact Except.ok.inj found ▸ distinct
  | case2 => next ih => exact ih sortedResult distinct found
  | case3 id stack sorted seen result notDone visited ih =>
      have fresh : id ∉ result := fun mem => notDone ((sortedResult id).mpr mem)
      apply ih _ _ found
      · intro other
        rw [List.mem_cons, List.mem_append, List.mem_singleton, sortedResult other, or_comm]
      · rw [← List.concat_eq_append]
        exact distinct.concat fresh
  | case4 => cases found
  | case5 => next ih => exact ih sortedResult distinct found

/-- `find_dependencies` never returns an id twice, on any registry. -/
theorem findDependencies_nodup (registry : ApplicationRegistryView) (ids : List UserApplicationId)
    (registeredApps : Descriptions) {result : List UserApplicationId}
    (found : registry.findDependencies ids registeredApps = .ok result) : result.Nodup :=
  findDependenciesLoop_nodup registry registeredApps _ [] [] [] (fun _ => Iff.rfl) List.nodup_nil
    found

/-- Two applications that require each other: each is returned once. -/
theorem findDependencies_nodup_on_cycle :
    let registry : ApplicationRegistryView :=
      ⟨∅, ((∅ : Descriptions).insert ⟨0, 0⟩ ⟨0, 0, 0, [], [⟨1, 1⟩]⟩).insert ⟨1, 1⟩
        ⟨1, 0, 1, [], [⟨0, 0⟩]⟩⟩
    registry.findDependencies [⟨1, 1⟩] ∅ = .ok [⟨0, 0⟩, ⟨1, 1⟩] ∧
      [(⟨0, 0⟩ : UserApplicationId), ⟨1, 1⟩].Nodup := by
  intro registry
  have foundOne : registry.lookupApplication ∅ ⟨1, 1⟩ = .ok ⟨1, 0, 1, [], [⟨0, 0⟩]⟩ := rfl
  have foundZero : registry.lookupApplication ∅ ⟨0, 0⟩ = .ok ⟨0, 0, 0, [], [⟨1, 1⟩]⟩ := rfl
  have found : registry.findDependencies [⟨1, 1⟩] ∅ = .ok [⟨0, 0⟩, ⟨1, 1⟩] := by
    -- Each id is visited, then sorted once its requirement is.
    unfold findDependencies
    rw [List.reverse_singleton, findDependenciesLoop_visit List.not_mem_nil List.not_mem_nil
      foundOne]
    rw [show (([⟨0, 0⟩] : List UserApplicationId).filter fun child => child ∉ [⟨1, 1⟩]) ++
        [⟨1, 1⟩] = [⟨0, 0⟩, ⟨1, 1⟩] from rfl,
      findDependenciesLoop_visit (by simp) (by simp) foundZero,
      show (([⟨1, 1⟩] : List UserApplicationId).filter fun child => child ∉ [⟨0, 0⟩, ⟨1, 1⟩]) ++
        [⟨0, 0⟩, ⟨1, 1⟩] = [⟨0, 0⟩, ⟨1, 1⟩] from rfl]
    simp [findDependenciesLoop]
  exact ⟨found, findDependencies_nodup registry [⟨1, 1⟩] ∅ found⟩

section Search

variable (registry : ApplicationRegistryView) (registeredApps : Descriptions)

/-- `id` requires `required`, as the search reads the registry. -/
def Requires (id required : UserApplicationId) : Prop :=
  ∃ app, registry.lookupApplication registeredApps id = .ok app ∧
    required ∈ app.requiredApplicationIds

/-- What an id requires, as the search reads it; nothing for an id it cannot find. -/
def requiredOf (id : UserApplicationId) : List UserApplicationId :=
  match registry.lookupApplication registeredApps id with
  | .ok app => app.requiredApplicationIds
  | .error _ => []

/-- The ids reach themselves and, transitively, what they require. -/
def Reachable (ids : List UserApplicationId) (id : UserApplicationId) : Prop :=
  ∃ start ∈ ids, Relation.ReflTransGen (registry.Requires registeredApps) start id

/-- An open id, seen and not sorted: its second visit is in the stack, every id above it
is one it reaches, and each of its requirements is sorted or above it. -/
def Pending (stack sorted : List UserApplicationId) (id : UserApplicationId) : Prop :=
  ∃ above below, stack = above ++ id :: below ∧ id ∉ above ∧
    (∀ required, registry.Requires registeredApps id required →
      required ∈ sorted ∨ required ∈ above) ∧
    ∀ pushed ∈ above, Relation.TransGen (registry.Requires registeredApps) id pushed

/-- What holds at each turn of the search. -/
structure LoopInvariant (ids stack sorted seen result : List UserApplicationId) : Prop where
  sortedResult : ∀ id, id ∈ sorted ↔ id ∈ result
  distinct : result.Nodup
  sortedSeen : ∀ id ∈ sorted, id ∈ seen
  ordered : DependenciesFirst (fun id => id) (registry.requiredOf registeredApps) result
  pending : ∀ id ∈ seen, id ∉ sorted → registry.Pending registeredApps stack sorted id
  closed : ∀ id ∈ seen, ∀ required, registry.Requires registeredApps id required →
    required ∈ seen ∨ required ∈ stack
  sound : ∀ id, id ∈ stack ∨ id ∈ seen → registry.Reachable registeredApps ids id
  initial : ∀ id ∈ ids, id ∈ seen ∨ id ∈ stack

variable {registry registeredApps}

theorem requires_iff {id required : UserApplicationId} {app : UserApplicationDescription}
    (found : registry.lookupApplication registeredApps id = .ok app) :
    registry.Requires registeredApps id required ↔ required ∈ app.requiredApplicationIds := by
  constructor
  · rintro ⟨other, otherFound, mem⟩
    rw [found] at otherFound
    cases otherFound
    exact mem
  · exact fun mem => ⟨app, found, mem⟩

theorem Reachable.tail {ids : List UserApplicationId} {id required : UserApplicationId}
    (reached : registry.Reachable registeredApps ids id)
    (requires : registry.Requires registeredApps id required) :
    registry.Reachable registeredApps ids required := by
  obtain ⟨start, mem, path⟩ := reached
  exact ⟨start, mem, path.tail requires⟩

theorem stack_eq_of_ne {top id : UserApplicationId} {stack above below : List UserApplicationId}
    (split : top :: stack = above ++ id :: below) (different : id ≠ top) :
    ∃ rest, above = top :: rest ∧ stack = rest ++ id :: below := by
  rcases List.cons_eq_append_iff.mp split with ⟨-, same⟩ | found
  · exact absurd (List.cons.inj same).1 different
  · exact found

theorem Pending.reaches_top {top id : UserApplicationId} {stack sorted : List UserApplicationId}
    (pending : registry.Pending registeredApps (top :: stack) sorted id) (different : id ≠ top) :
    Relation.TransGen (registry.Requires registeredApps) id top := by
  obtain ⟨above, below, split, -, -, reaches⟩ := pending
  obtain ⟨rest, rfl, -⟩ := stack_eq_of_ne split different
  exact reaches top List.mem_cons_self

theorem Pending.top {id : UserApplicationId} {stack sorted : List UserApplicationId}
    (pending : registry.Pending registeredApps (id :: stack) sorted id) :
    ∀ required, registry.Requires registeredApps id required → required ∈ sorted := by
  obtain ⟨above, below, split, fresh, requirements, -⟩ := pending
  -- Nothing is above it: the top of the stack is the id itself.
  have empty : above = [] := by
    rcases List.cons_eq_append_iff.mp split with ⟨empty, -⟩ | ⟨rest, rfl, -⟩
    · exact empty
    · exact absurd List.mem_cons_self fresh
  intro required requires
  rcases requirements required requires with sorted | above
  · exact sorted
  · rw [empty] at above
    cases above

theorem Pending.pop {top id : UserApplicationId} {stack sorted sorted' : List UserApplicationId}
    (pending : registry.Pending registeredApps (top :: stack) sorted id) (different : id ≠ top)
    (grows : ∀ other ∈ sorted, other ∈ sorted') (topSorted : top ∈ sorted') :
    registry.Pending registeredApps stack sorted' id := by
  obtain ⟨above, below, split, fresh, requirements, reaches⟩ := pending
  obtain ⟨rest, rfl, rfl⟩ := stack_eq_of_ne split different
  refine ⟨rest, below, rfl, fun mem => fresh (List.mem_cons_of_mem _ mem), ?_,
    fun pushed mem => reaches pushed (List.mem_cons_of_mem _ mem)⟩
  intro required requires
  rcases requirements required requires with sorted | above
  · exact .inl (grows required sorted)
  · rcases List.mem_cons.mp above with rfl | later
    · exact .inl topSorted
    · exact .inr later

theorem Pending.push {top id : UserApplicationId} {stack sorted pushed : List UserApplicationId}
    (pending : registry.Pending registeredApps (top :: stack) sorted id) (different : id ≠ top)
    (notPushed : id ∉ pushed) (required : ∀ other ∈ pushed, registry.Requires registeredApps top other) :
    registry.Pending registeredApps (pushed ++ top :: stack) sorted id := by
  have reachesTop := pending.reaches_top different
  obtain ⟨above, below, split, fresh, requirements, reaches⟩ := pending
  obtain ⟨rest, rfl, rfl⟩ := stack_eq_of_ne split different
  refine ⟨pushed ++ top :: rest, below, by simp, ?_, ?_, ?_⟩
  · rw [List.mem_append]
    exact fun mem => mem.elim notPushed fresh
  · intro other requires
    rcases requirements other requires with sorted | above
    · exact .inl sorted
    · exact .inr (List.mem_append_right _ above)
  · intro other mem
    rcases List.mem_append.mp mem with new | old
    · exact reachesTop.tail (required other new)
    · exact reaches other old

-- Each branch of the loop keeps the invariant.

section Steps

variable {ids stack sorted seen result : List UserApplicationId} {id : UserApplicationId}

theorem LoopInvariant.skip
    (invariant : registry.LoopInvariant registeredApps ids (id :: stack) sorted seen result)
    (done : id ∈ sorted) : registry.LoopInvariant registeredApps ids stack sorted seen result where
  sortedResult := invariant.sortedResult
  distinct := invariant.distinct
  sortedSeen := invariant.sortedSeen
  ordered := invariant.ordered
  pending other visited notDone :=
    (invariant.pending other visited notDone).pop (fun same => notDone (same ▸ done))
      (fun _ mem => mem) done
  closed other visited required requires := by
    rcases invariant.closed other visited required requires with seen | stacked
    · exact .inl seen
    · rcases List.mem_cons.mp stacked with rfl | later
      · exact .inl (invariant.sortedSeen _ done)
      · exact .inr later
  sound other found :=
    invariant.sound other (found.imp_left (List.mem_cons_of_mem _))
  initial start mem := by
    rcases invariant.initial start mem with seen | stacked
    · exact .inl seen
    · rcases List.mem_cons.mp stacked with rfl | later
      · exact .inl (invariant.sortedSeen _ done)
      · exact .inr later

theorem LoopInvariant.sort
    (invariant : registry.LoopInvariant registeredApps ids (id :: stack) sorted seen result)
    (registered : ∀ other, registry.Reachable registeredApps ids other →
      ∃ app, registry.lookupApplication registeredApps other = .ok app)
    (notDone : id ∉ sorted) (visited : id ∈ seen) :
    registry.LoopInvariant registeredApps ids stack (id :: sorted) seen (result ++ [id]) where
  sortedResult other := by
    rw [List.mem_cons, List.mem_append, List.mem_singleton, invariant.sortedResult other, or_comm]
  distinct := by
    rw [← List.concat_eq_append]
    exact invariant.distinct.concat fun mem => notDone ((invariant.sortedResult id).mpr mem)
  sortedSeen other mem := by
    rcases List.mem_cons.mp mem with rfl | old
    · exact visited
    · exact invariant.sortedSeen other old
  ordered := by
    obtain ⟨app, found⟩ := registered id (invariant.sound id (.inr visited))
    -- Its second visit is on top: everything it requires is sorted already.
    have sortedFirst := (invariant.pending id visited notDone).top
    refine .snoc invariant.ordered fun required mem => ?_
    have requires : registry.Requires registeredApps id required := by
      unfold requiredOf at mem
      rw [found] at mem
      exact ⟨app, found, mem⟩
    rw [List.map_id']
    exact (invariant.sortedResult required).mp (sortedFirst required requires)
  pending other seenOther notDone' := by
    have different : other ≠ id := fun same => notDone' (same ▸ List.mem_cons_self)
    exact (invariant.pending other seenOther fun mem => notDone' (List.mem_cons_of_mem _ mem)).pop
      different (fun _ mem => List.mem_cons_of_mem _ mem) List.mem_cons_self
  closed other seenOther required requires := by
    rcases invariant.closed other seenOther required requires with seen | stacked
    · exact .inl seen
    · rcases List.mem_cons.mp stacked with rfl | later
      · exact .inl visited
      · exact .inr later
  sound other found :=
    invariant.sound other (found.imp_left (List.mem_cons_of_mem _))
  initial start mem := by
    rcases invariant.initial start mem with seen | stacked
    · exact .inl seen
    · rcases List.mem_cons.mp stacked with rfl | later
      · exact .inl visited
      · exact .inr later

theorem LoopInvariant.visit
    (invariant : registry.LoopInvariant registeredApps ids (id :: stack) sorted seen result)
    (acyclic : ∀ other, registry.Reachable registeredApps ids other →
      ¬ Relation.TransGen (registry.Requires registeredApps) other other)
    (fresh : id ∉ seen) {app : UserApplicationDescription}
    (found : registry.lookupApplication registeredApps id = .ok app) :
    registry.LoopInvariant registeredApps ids
      ((app.requiredApplicationIds.filter fun child => child ∉ id :: seen) ++ id :: stack)
      sorted (id :: seen) result := by
  have reached : registry.Reachable registeredApps ids id :=
    invariant.sound id (.inl List.mem_cons_self)
  have pushedRequired : ∀ child ∈ app.requiredApplicationIds.filter (fun child => child ∉ id :: seen),
      registry.Requires registeredApps id child :=
    fun child mem => (requires_iff found).mpr (List.mem_filter.mp mem).1
  have seenNotPushed : ∀ other ∈ id :: seen,
      other ∉ app.requiredApplicationIds.filter fun child => child ∉ id :: seen :=
    fun other visited mem => by simpa [visited] using (List.mem_filter.mp mem).2
  refine ⟨invariant.sortedResult, invariant.distinct,
    fun other mem => List.mem_cons_of_mem _ (invariant.sortedSeen other mem), invariant.ordered,
    ?_, ?_, ?_, ?_⟩
  · intro other visited notDone
    rcases List.mem_cons.mp visited with same | old
    · -- The id itself, just below what it pushed.
      rw [same] at notDone ⊢
      refine ⟨_, stack, rfl, seenNotPushed id List.mem_cons_self, ?_,
        fun child mem => .single (pushedRequired child mem)⟩
      intro required requires
      by_cases done : required ∈ sorted
      · exact .inl done
      by_cases pushed : required ∈ id :: seen
      · -- A requirement seen and not sorted would close a cycle through the id.
        exfalso
        rcases List.mem_cons.mp pushed with same | old
        · rw [same] at requires
          exact acyclic id reached (.single requires)
        · have different : required ≠ id := fun same => fresh (same ▸ old)
          have cycle := ((invariant.pending required old done).reaches_top different).tail requires
          exact acyclic required (invariant.sound required (.inr old)) cycle
      · exact .inr (List.mem_filter.mpr ⟨(requires_iff found).mp requires, by simpa using pushed⟩)
    · have different : other ≠ id := fun same => fresh (same ▸ old)
      exact (invariant.pending other old notDone).push different
        (seenNotPushed other (List.mem_cons_of_mem _ old)) pushedRequired
  · intro other visited required requires
    rcases List.mem_cons.mp visited with same | old
    · rw [same] at requires
      by_cases pushed : required ∈ id :: seen
      · exact .inl pushed
      · exact .inr (List.mem_append_left _
          (List.mem_filter.mpr ⟨(requires_iff found).mp requires, by simpa using pushed⟩))
    · rcases invariant.closed other old required requires with seen | stacked
      · exact .inl (List.mem_cons_of_mem _ seen)
      · exact .inr (List.mem_append_right _ stacked)
  · intro other found'
    rcases found' with stacked | visited
    · rcases List.mem_append.mp stacked with pushed | old
      · exact reached.tail (pushedRequired other pushed)
      · exact invariant.sound other (.inl old)
    · rcases List.mem_cons.mp visited with same | old
      · exact same ▸ reached
      · exact invariant.sound other (.inr old)
  · intro start mem
    rcases invariant.initial start mem with seen | stacked
    · exact .inl (List.mem_cons_of_mem _ seen)
    · exact .inr (List.mem_append_right _ stacked)

theorem LoopInvariant.finish
    (invariant : registry.LoopInvariant registeredApps ids [] sorted seen result) (other : UserApplicationId) :
    other ∈ result ↔ registry.Reachable registeredApps ids other := by
  -- With nothing left to visit, every seen id is sorted.
  have allSorted : ∀ id ∈ seen, id ∈ sorted := by
    intro id visited
    by_contra notDone
    obtain ⟨above, below, split, -⟩ := invariant.pending id visited notDone
    simp at split
  constructor
  · intro mem
    exact invariant.sound other (.inr (invariant.sortedSeen other ((invariant.sortedResult other).mpr mem)))
  · rintro ⟨start, mem, path⟩
    have visited : other ∈ seen := by
      induction path with
      | refl => simpa using invariant.initial start mem
      | tail _ requires ih => simpa using invariant.closed _ ih _ requires
    exact (invariant.sortedResult other).mp (allSorted other visited)

end Steps

section Run

variable (ids : List UserApplicationId)
  (registered : ∀ id, registry.Reachable registeredApps ids id →
    ∃ app, registry.lookupApplication registeredApps id = .ok app)
  (acyclic : ∀ id, registry.Reachable registeredApps ids id →
    ¬ Relation.TransGen (registry.Requires registeredApps) id id)

include registered acyclic in
/-- From any turn that keeps the invariant, the loop returns what the ids reach, once
each and after what it requires. -/
theorem findDependenciesLoop_spec (stack sorted seen result : List UserApplicationId)
    (invariant : registry.LoopInvariant registeredApps ids stack sorted seen result) :
    ∃ final, registry.findDependenciesLoop registeredApps stack sorted seen result = .ok final ∧
      final.Nodup ∧ (∀ id, id ∈ final ↔ registry.Reachable registeredApps ids id) ∧
      DependenciesFirst (fun id => id) (registry.requiredOf registeredApps) final := by
  fun_induction registry.findDependenciesLoop registeredApps stack sorted seen result with
  | case1 sorted seen result =>
      exact ⟨result, rfl, invariant.distinct, invariant.finish, invariant.ordered⟩
  | case2 id stack sorted seen result done ih => exact ih (invariant.skip done)
  | case3 id stack sorted seen result notDone visited ih =>
      exact ih (invariant.sort registered notDone visited)
  | case4 id stack sorted seen result notDone fresh error failed =>
      -- The id is reachable, so the registry knows it.
      obtain ⟨app, found⟩ := registered id (invariant.sound id (.inl List.mem_cons_self))
      rw [found] at failed
      cases failed
  | case5 id stack sorted seen result notDone fresh app found ih =>
      exact ih (invariant.visit acyclic fresh found)

include registered acyclic in
/-- On a registry that knows every application the ids reach, with no cycle among them,
`find_dependencies` returns each of them exactly once, after all it requires. -/
theorem findDependencies_spec :
    ∃ result, registry.findDependencies ids registeredApps = .ok result ∧ result.Nodup ∧
      (∀ id, id ∈ result ↔ registry.Reachable registeredApps ids id) ∧
      DependenciesFirst (fun id => id) (registry.requiredOf registeredApps) result := by
  apply findDependenciesLoop_spec ids registered acyclic
  refine ⟨fun _ => Iff.rfl, List.nodup_nil, (fun _ mem => by cases mem), .nil,
    (fun _ mem => by cases mem), (fun _ mem => by cases mem), ?_, ?_⟩
  · -- At the start, the stack holds the ids and nothing is seen.
    rintro id (stacked | visited)
    · exact ⟨id, List.mem_reverse.mp stacked, .refl⟩
    · cases visited
  · exact fun id mem => .inr (List.mem_reverse.mpr mem)

end Run

end Search

/-- Every description of a map is stored under its own id. -/
def Keyed (descriptions : Descriptions) : Prop :=
  ∀ id description, descriptions.lookup id = some description → description.applicationId = id

theorem forM_describeApplication_eq_ok {registry : ApplicationRegistryView}
    {requiredIds : List UserApplicationId}
    (known : ∀ id ∈ requiredIds, id ∈ registry.knownApplications) :
    (requiredIds.forM fun requiredId => discard (registry.describeApplication requiredId)) =
      .ok () := by
  induction requiredIds with
  | nil => rfl
  | cons id rest ih =>
      obtain ⟨description, found⟩ := Option.isSome_iff_exists.mp
        (AList.lookup_isSome.mpr (known id List.mem_cons_self))
      have later := ih fun other mem => known other (List.mem_cons_of_mem _ mem)
      simp only [List.forM]
      rw [later]
      simp only [describeApplication, found]
      rfl

theorem registerApplication_eq_ok (registry : ApplicationRegistryView)
    (application : UserApplicationDescription)
    (known : ∀ id ∈ application.requiredApplicationIds, id ∈ registry.knownApplications) :
    registry.registerApplication application =
      .ok ({ registry with
        knownApplications := registry.knownApplications.insert application.applicationId application },
        application.applicationId) := by
  unfold registerApplication
  rw [forM_describeApplication_eq_ok known]
  rfl

theorem registerApplications_eq_ok (registry : ApplicationRegistryView)
    {applications : List UserApplicationDescription}
    (ordered : DependenciesFirst (·.applicationId) (·.requiredApplicationIds) applications) :
    ∃ registered, registry.registerApplications applications = .ok registered ∧
      ∀ application ∈ applications, application.applicationId ∈ registered.knownApplications := by
  refine ordered.foldlM_ok (fun (state : ApplicationRegistryView) id => id ∈ state.knownApplications)
    (fun state application => Prod.fst <$> state.registerApplication application) ?_ registry
  intro state application ready
  refine ⟨_, by rw [registerApplication_eq_ok state application ready]; rfl, ?_, ?_⟩
  · exact (AList.mem_insert _).mpr (.inl rfl)
  · exact fun other present => (AList.mem_insert _).mpr (.inr present)

/-- The description the lookup finds for an id, or the default one. -/
def describedOrDefault (registry : ApplicationRegistryView) (registeredApps : Descriptions)
    (id : UserApplicationId) : UserApplicationDescription :=
  match registry.lookupApplication registeredApps id with
  | .ok app => app
  | .error _ => default

theorem lookupApplication_applicationId {registry : ApplicationRegistryView}
    {registeredApps : Descriptions} (keyedApps : Keyed registeredApps)
    (keyedKnown : Keyed registry.knownApplications) {id : UserApplicationId}
    {app : UserApplicationDescription}
    (found : registry.lookupApplication registeredApps id = .ok app) : app.applicationId = id := by
  unfold lookupApplication describeApplication at found
  rcases registeredLookup : registeredApps.lookup id with _ | registeredApp
  · rw [registeredLookup] at found
    rcases knownLookup : registry.knownApplications.lookup id with _ | knownApp
    · rw [knownLookup] at found
      cases found
    · rw [knownLookup] at found
      exact Except.ok.inj found ▸ keyedKnown id knownApp knownLookup
  · rw [registeredLookup] at found
    exact Except.ok.inj found ▸ keyedApps id registeredApp registeredLookup

section Describe

variable (registry : ApplicationRegistryView) (registeredApps : Descriptions)
  (ids : List UserApplicationId)
  (registered : ∀ id, registry.Reachable registeredApps ids id →
    ∃ app, registry.lookupApplication registeredApps id = .ok app)
  (acyclic : ∀ id, registry.Reachable registeredApps ids id →
    ¬ Relation.TransGen (registry.Requires registeredApps) id id)

include registered acyclic in
/-- On maps that store descriptions under their ids, `describe_applications_with_dependencies`
describes what the ids reach, in dependency order. -/
theorem describeApplicationsWithDependencies_spec (keyedApps : Keyed registeredApps)
    (keyedKnown : Keyed registry.knownApplications) :
    ∃ applications, registry.describeApplicationsWithDependencies ids registeredApps =
        .ok applications ∧
      (∀ id, registry.Reachable registeredApps ids id ↔
        ∃ application ∈ applications, application.applicationId = id) ∧
      DependenciesFirst (·.applicationId) (·.requiredApplicationIds) applications := by
  obtain ⟨result, found, -, reach, ordered⟩ := findDependencies_spec ids registered acyclic
  -- Each id of the result is found, and its description is stored under it.
  have described : ∀ id ∈ result, registry.lookupApplication registeredApps id =
      .ok (registry.describedOrDefault registeredApps id) := by
    intro id mem
    obtain ⟨app, appFound⟩ := registered id ((reach id).mp mem)
    simp only [describedOrDefault, appFound]
  have sameKey : ∀ id ∈ result, (registry.describedOrDefault registeredApps id).applicationId = id :=
    fun id mem => lookupApplication_applicationId keyedApps keyedKnown (described id mem)
  refine ⟨result.map (registry.describedOrDefault registeredApps), ?_, ?_, ?_⟩
  · unfold describeApplicationsWithDependencies
    rw [found]
    exact Except.mapM_eq_ok_map result described
  · intro id
    rw [← reach]
    constructor
    · intro mem
      exact ⟨_, List.mem_map_of_mem mem, sameKey id mem⟩
    · rintro ⟨application, mem, rfl⟩
      obtain ⟨other, otherMem, rfl⟩ := List.mem_map.mp mem
      rw [sameKey other otherMem]
      exact otherMem
  · refine ordered.map _ sameKey fun id mem => ?_
    simp only [requiredOf, described id mem]

include registered acyclic in
/-- The descriptions a sender gives for the ids register, in their order, on the registry
of any recipient, which then knows every application the ids reach. -/
theorem registerApplications_describeApplicationsWithDependencies (keyedApps : Keyed registeredApps)
    (keyedKnown : Keyed registry.knownApplications) (recipient : ApplicationRegistryView) :
    ∃ applications, registry.describeApplicationsWithDependencies ids registeredApps =
        .ok applications ∧
      ∃ registeredRecipient, recipient.registerApplications applications = .ok registeredRecipient ∧
        ∀ id, registry.Reachable registeredApps ids id → id ∈ registeredRecipient.knownApplications := by
  obtain ⟨applications, described, reach, ordered⟩ :=
    describeApplicationsWithDependencies_spec registry registeredApps ids registered acyclic
      keyedApps keyedKnown
  obtain ⟨registeredRecipient, registeredAll, known⟩ := registerApplications_eq_ok recipient ordered
  refine ⟨applications, described, registeredRecipient, registeredAll, fun id reached => ?_⟩
  obtain ⟨application, mem, rfl⟩ := (reach id).mp reached
  exact known application mem

end Describe

/-- A registry that knows one application, which requires nothing, describes it to a
recipient that knows nothing. -/
theorem registerApplications_describeApplicationsWithDependencies_of_one :
    let registry : ApplicationRegistryView := ⟨∅, (∅ : Descriptions).insert ⟨0, 0⟩ ⟨0, 0, 0, [], []⟩⟩
    (∀ id, registry.Reachable ∅ [⟨0, 0⟩] id → ∃ app, registry.lookupApplication ∅ id = .ok app) ∧
      (∀ id, registry.Reachable ∅ [⟨0, 0⟩] id → ¬ Relation.TransGen (registry.Requires ∅) id id) ∧
      Keyed ∅ ∧ Keyed registry.knownApplications ∧
      ∃ applications, registry.describeApplicationsWithDependencies [⟨0, 0⟩] ∅ = .ok applications ∧
        ∃ registeredRecipient, (⟨∅, ∅⟩ : ApplicationRegistryView).registerApplications applications =
            .ok registeredRecipient ∧
          ∀ id, registry.Reachable ∅ [⟨0, 0⟩] id → id ∈ registeredRecipient.knownApplications := by
  intro registry
  -- The only application requires nothing, and no other id is found.
  have absent : ∀ id, id ≠ ⟨0, 0⟩ → registry.knownApplications.lookup id = none := by
    intro id known
    show ((∅ : Descriptions).insert ⟨0, 0⟩ ⟨0, 0, 0, [], []⟩).lookup id = none
    rw [AList.lookup_insert_ne known]
    rfl
  have noRequires : ∀ id required, ¬ registry.Requires ∅ id required := by
    rintro id required ⟨app, found, mem⟩
    by_cases known : id = ⟨0, 0⟩
    · subst known
      obtain rfl : app = ⟨0, 0, 0, [], []⟩ := (Except.ok.inj found).symm
      exact List.not_mem_nil mem
    · simp [lookupApplication, describeApplication, absent id known] at found
  have only : ∀ id, registry.Reachable ∅ [⟨0, 0⟩] id → id = ⟨0, 0⟩ := by
    rintro id ⟨start, mem, path⟩
    rw [List.mem_singleton] at mem
    subst mem
    cases path with
    | refl => rfl
    | tail _ step => exact (noRequires _ _ step).elim
  have registered : ∀ id, registry.Reachable ∅ [⟨0, 0⟩] id →
      ∃ app, registry.lookupApplication ∅ id = .ok app := by
    intro id reached
    rw [only id reached]
    exact ⟨_, rfl⟩
  have acyclic : ∀ id, registry.Reachable ∅ [⟨0, 0⟩] id →
      ¬ Relation.TransGen (registry.Requires ∅) id id := by
    intro id _ cycle
    cases cycle with
    | single step => exact noRequires _ _ step
    | tail _ step => exact noRequires _ _ step
  have keyedApps : Keyed ∅ := fun _ _ found => by simp at found
  have keyedKnown : Keyed registry.knownApplications := by
    intro id description found
    by_cases known : id = ⟨0, 0⟩
    · subst known
      obtain rfl : description = ⟨0, 0, 0, [], []⟩ := (Option.some.inj found).symm
      rfl
    · rw [absent id known] at found
      cases found
  exact ⟨registered, acyclic, keyedApps, keyedKnown,
    registerApplications_describeApplicationsWithDependencies registry ∅ [⟨0, 0⟩] registered
      acyclic keyedApps keyedKnown ⟨∅, ∅⟩⟩

end ApplicationRegistryView

end Linera.Execution.Applications
