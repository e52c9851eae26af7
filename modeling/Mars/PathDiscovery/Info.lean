import Mathlib.Data.Finset.Basic
import Mathlib.Algebra.BigOperators.Group.Multiset.Defs
import Mars.Basic
import Mars.Lib.Outcome

/-!
The per-prefix state of path discovery (`PathDiscoveryInfo` of `multipath.go`) and
the helpers that edit it.

A `map[uint64]bool` that is used as a set is a `Finset`.  A `for face := range m`
loop visits the keys in an order Go does not fix; it is a `Multiset.foldl`, which
asks for a proof that the order does not matter.

* `groupHopSnapshotsByCost`, `refreshPathDiscoverySnapshot`, `tierGrouping`,
  `startPathDiscovery`, `probeTier`, `probeNextTier`: the tiers and their probing;
* `isCurrentTierAllInvalid`, `skipTier`, `localNodeConverged`,
  `updateAfterPathDiscovery`: convergence;
* `excludeFace`: the five deletions that the handlers perform in a row when a face
  is given up.
-/

namespace Mars

open Finset

open Grouping (distinct classes)

/-- `hopSnapshot`: the copy of a FIB nexthop that the tiers hold. -/
structure HopSnapshot where
  nexthop : Face
  cost : ℕ
  deriving DecidableEq, Repr

/-- `PathDiscoveryInfo`, without its lock, its timers and the per-upstream
measurements. -/
@[ext] structure PathDiscoveryInfo where
  prefixKey : Str
  isInitialized : Bool
  tierList : List (List HopSnapshot)
  tierCostList : List ℕ
  currentTier : ℕ
  probeIndex : ℤ
  waitList : List (List HopSnapshot)
  probedUpstreams : List Face
  probedSchedulerIndex : ℕ
  convergedUpstreamTier : Finset Face
  convergedUpstreamNode : Finset Face
  isNodeConverged : Bool
  validUpstreams : Finset Face
  isInvalidNode : Bool
  isPdFrozen : Bool
  frozenFaces : Finset Face
  frozenRecoverFaces : Finset Face
  activeFaces : List Face
  activeFaceIndex : ℕ
  dtValidFaces : List Face
  dtFaceRateControlEnabled : Bool
  dtBootstrapFaceRR : ℕ
  dtBootstrapProbeCounter : ℕ
  deriving DecidableEq

/-- The state that `getPathDiscoveryInfo` stores for a prefix seen for the first
time. -/
def PathDiscoveryInfo.new (key : Str) : PathDiscoveryInfo where
  prefixKey := key
  isInitialized := false
  tierList := []
  tierCostList := []
  currentTier := 0
  probeIndex := 0
  waitList := []
  probedUpstreams := []
  probedSchedulerIndex := 0
  convergedUpstreamTier := ∅
  convergedUpstreamNode := ∅
  isNodeConverged := false
  validUpstreams := ∅
  isInvalidNode := false
  isPdFrozen := false
  frozenFaces := ∅
  frozenRecoverFaces := ∅
  activeFaces := []
  activeFaceIndex := 0
  dtValidFaces := []
  dtFaceRateControlEnabled := false
  dtBootstrapFaceRR := 0
  dtBootstrapProbeCounter := 0

/-- What a path-discovery handler does besides editing the prefix state: the
packets it sends, and its calls of `skipTier` and `localNodeConverged`.  A call of
`skipTier` is recorded with the state it is called in, one of `localNodeConverged`
with the state it leaves. -/
inductive PdAction where
  | sendNack (nexthop inFace : Face) (reason : ℕ)
  | sendInterest (nexthop inFace : Face)
  | sendData (nexthop inFace : Face) (tierConverged nodeConverged : Bool)
  | sendDataUnread (nexthop inFace : Face)
  | skipTier (info : PathDiscoveryInfo)
  | localNodeConverged (info : PathDiscoveryInfo)
  deriving DecidableEq

/-! ### Tiers -/

/-- The faces that occur in a list of tiers. -/
def tierFaces (tiers : List (List HopSnapshot)) : List Face := tiers.flatten.map (·.nexthop)

/-- `snapshotNexthops`: nil entries are skipped. -/
def snapshotNexthops (nexthops : List (Option FibNextHopEntry)) : List HopSnapshot :=
  nexthops.filterMap fun nh => nh.map fun nh => ⟨nh.nexthop, nh.cost⟩

/-- `groupHopSnapshotsByCost`: one tier for each cost, the cheapest first, and the
costs of the tiers.  The costs are collected in order of first occurrence and then
sorted; a tier holds its hops in the order they are listed. -/
def groupHopSnapshotsByCost (hops : List HopSnapshot) : List (List HopSnapshot) × List ℕ :=
  let costs := (distinct (hops.map (·.cost))).insertionSort (· ≤ ·)
  (classes (·.cost) costs hops, costs)

variable (info : PathDiscoveryInfo)

/-- `removeFaceFromWaitList`. -/
def removeFaceFromWaitList (face : Face) : PathDiscoveryInfo :=
  { info with waitList := info.waitList.map fun tier => tier.filter (·.nexthop ≠ face) }

/-- `removeFaceFromProbedUpstreams`: only the first occurrence goes. -/
def removeFaceFromProbedUpstreams (face : Face) : PathDiscoveryInfo :=
  { info with probedUpstreams := info.probedUpstreams.erase face }

/-- The deletions that the handlers perform when they give up a face: from the valid
faces, the wait list, both sets of faces awaited for convergence and the probed
faces. -/
def excludeFace (face : Face) : PathDiscoveryInfo :=
  let info := { info with validUpstreams := info.validUpstreams.erase face }
  let info := removeFaceFromWaitList info face
  let info := { info with
    convergedUpstreamTier := info.convergedUpstreamTier.erase face
    convergedUpstreamNode := info.convergedUpstreamNode.erase face }
  removeFaceFromProbedUpstreams info face

/-- The body of the first loop of `refreshPathDiscoverySnapshot`: a face that the FIB
no longer lists leaves all state sets, but not the wait list, which is rebuilt. -/
def dropDisappearedFace (face : Face) : PathDiscoveryInfo :=
  removeFaceFromProbedUpstreams { info with
    validUpstreams := info.validUpstreams.erase face
    convergedUpstreamTier := info.convergedUpstreamTier.erase face
    convergedUpstreamNode := info.convergedUpstreamNode.erase face
    frozenFaces := info.frozenFaces.erase face
    frozenRecoverFaces := info.frozenRecoverFaces.erase face } face

instance : RightCommutative excludeFace where
  right_comm info a b := by
    simp only [excludeFace, removeFaceFromWaitList, removeFaceFromProbedUpstreams,
      List.map_map, PathDiscoveryInfo.mk.injEq, true_and, and_true]
    refine ⟨?_, List.erase_comm .., erase_right_comm, erase_right_comm, erase_right_comm⟩
    refine List.map_congr_left fun tier _ => ?_
    simp only [Function.comp_apply, List.filter_filter, Bool.and_comm]

instance : RightCommutative dropDisappearedFace where
  right_comm info a b := by
    simp only [dropDisappearedFace, removeFaceFromProbedUpstreams, PathDiscoveryInfo.mk.injEq,
      true_and, and_true]
    exact ⟨List.erase_comm .., erase_right_comm, erase_right_comm,
      erase_right_comm, erase_right_comm, erase_right_comm⟩

/-- The probed faces that `refreshPathDiscoverySnapshot` keeps: those still listed
and still valid, each once. -/
def filterProbed (latestFaces valid : Finset Face) (probed : List Face) : List Face :=
  distinct (probed.filter fun face => face ∈ latestFaces ∧ face ∈ valid)

/-- The first loop of `refreshPathDiscoverySnapshot`, over the valid faces. -/
def dropDisappeared (latestFaces : Finset Face) : PathDiscoveryInfo :=
  (info.validUpstreams.filter (· ∉ latestFaces)).val.foldl dropDisappearedFace info

/-- The second part of `refreshPathDiscoverySnapshot`: the tiers of the latest
nexthops, over the faces that are still valid. -/
def rebuildTiers (latest : List HopSnapshot) : PathDiscoveryInfo :=
  let latestFaces := (latest.map (·.nexthop)).toFinset
  let filteredTiers := (groupHopSnapshotsByCost latest).1.map fun tier =>
    tier.filter (·.nexthop ∈ info.validUpstreams)
  let filteredProbed := filterProbed latestFaces info.validUpstreams info.probedUpstreams
  { info with
    tierList := filteredTiers
    waitList := filteredTiers
    tierCostList := (groupHopSnapshotsByCost latest).2
    probedUpstreams := filteredProbed
    probedSchedulerIndex :=
      if filteredProbed = [] ∨ filteredProbed.length ≤ info.probedSchedulerIndex then 0
      else info.probedSchedulerIndex }

/-- The end of `refreshPathDiscoverySnapshot`: `currentTier` is cut to the new number
of tiers. -/
def keepCurrentTierInRange : PathDiscoveryInfo :=
  if info.waitList = [] then { info with currentTier := 0 }
  else if info.waitList.length ≤ info.currentTier then
    { info with currentTier := info.waitList.length - 1 }
  else info

/-- `refreshPathDiscoverySnapshot`. -/
def refreshPathDiscoverySnapshot (nexthops : List (Option FibNextHopEntry)) : PathDiscoveryInfo :=
  let latest := snapshotNexthops nexthops
  if latest = [] then info
  else
    keepCurrentTierInRange
      (rebuildTiers (dropDisappeared info (latest.map (·.nexthop)).toFinset) latest)

/-- `TierGrouping`. -/
def tierGrouping (nexthops : List HopSnapshot) : PathDiscoveryInfo :=
  { info with
    tierList := (groupHopSnapshotsByCost nexthops).1
    tierCostList := (groupHopSnapshotsByCost nexthops).2
    waitList := (groupHopSnapshotsByCost nexthops).1
    currentTier := 0 }

/-- One round of the loop of `StartPathDiscovery` that gives up expensive tiers: the
tier's faces leave the valid faces and its entry in the wait list is cleared. -/
def removeTier (i : ℕ) : PathDiscoveryInfo :=
  let facesToRemove := ((info.waitList.getD i []).map (·.nexthop)).toFinset
  { info with
    validUpstreams := info.validUpstreams \ facesToRemove
    convergedUpstreamNode := info.convergedUpstreamNode \ facesToRemove
    waitList := info.waitList.set i [] }

/-- The tiers that cost at least twice the first one, the highest first.  The doubling
is on 64-bit integers. -/
def expensiveTiers (costs : List ℕ) : List ℕ :=
  (List.range costs.length).reverse.filter fun i =>
    0 < i ∧ costs.headD 0 * 2 % 2 ^ 64 ≤ costs.getD i 0

/-! ### Convergence -/

/-- `areHigherTiersEmpty`. -/
def areHigherTiersEmpty : Bool :=
  (info.waitList.drop (info.currentTier + 1)).all (·.isEmpty)

/-- `isCurrentTierAllInvalid`: the test reads the tier list, not the wait list. -/
def isCurrentTierAllInvalid : Bool :=
  if info.tierList.length ≤ info.currentTier then true
  else (info.tierList.getD info.currentTier []).all (·.nexthop ∉ info.validUpstreams)

/-- `updateAfterPathDiscovery`: the tier list becomes the non-empty tiers of the wait
list. -/
def updateAfterPathDiscovery : PathDiscoveryInfo :=
  { info with
    tierList := info.waitList.filter (· ≠ [])
    tierCostList := ((info.waitList.zip (info.tierCostList)).filter (·.1 ≠ [])).map (·.2) }

/-- `flattenDtTierFaces`: the faces of the tiers in order, each once. -/
def flattenDtTierFaces (tiers : List (List HopSnapshot)) : List Face :=
  distinct (tierFaces tiers)

/-- What `localNodeConverged` makes of the state of a prefix that has not converged. -/
def converge : PathDiscoveryInfo :=
  let info := { info with convergedUpstreamTier := ∅, isNodeConverged := true }
  let info := updateAfterPathDiscovery info
  let dtValidFaces := flattenDtTierFaces info.tierList
  { info with
    dtValidFaces := dtValidFaces
    dtFaceRateControlEnabled := 1 < dtValidFaces.length
    dtBootstrapFaceRR := 0
    dtBootstrapProbeCounter := 0 }

/-- `localNodeConverged`.  Arming the failure window and activating the rate control
of the faces work on state shared by all prefixes; they are done by the receiver of the
recorded action. -/
def localNodeConverged (info : PathDiscoveryInfo) : Outcome PathDiscoveryInfo PdAction :=
  if info.isNodeConverged then .go info []
  else .go (converge info) [.localNodeConverged (converge info)]

/-- The loop of `skipTier` over the current tier and the tiers above it. -/
def clearUpperTiers : PathDiscoveryInfo :=
  let facesToRemove := (tierFaces (info.waitList.drop info.currentTier)).toFinset
  { info with
    waitList := info.waitList.take info.currentTier
      ++ (info.waitList.drop info.currentTier).map fun _ => []
    validUpstreams := info.validUpstreams \ facesToRemove
    convergedUpstreamNode := info.convergedUpstreamNode \ facesToRemove }

/-- `skipTier`. -/
def skipTier (info : PathDiscoveryInfo) : Outcome PathDiscoveryInfo PdAction :=
  (Outcome.go (clearUpperTiers info) [.skipTier info]).bind localNodeConverged

/-! ### Probing -/

/-- Whether the node is the producer node of the prefix: the prefix starts with the
node's name, leading slashes aside. -/
def isProducerNode (node key : Str) : Bool :=
  hasPrefix (trimPrefix key ['/']) (trimPrefix node ['/'])

/-- The body of the loop of `ProbeTier`. -/
def probeFace (hop : HopSnapshot) : PathDiscoveryInfo :=
  { info with
    probedUpstreams :=
      if hop.nexthop ∈ info.probedUpstreams then info.probedUpstreams
      else info.probedUpstreams ++ [hop.nexthop]
    convergedUpstreamTier := insert hop.nexthop info.convergedUpstreamTier }

/-- The loop of `ProbeTier` over the faces of the tier. -/
def probeFaces (tierIndex : ℕ) : PathDiscoveryInfo :=
  (info.waitList.getD tierIndex []).foldl probeFace info

/-- `ProbeTier`: the faces of the tier are probed; the producer node of the prefix
converges at once. -/
def probeTier (node : Str) (info : PathDiscoveryInfo) (tierIndex : ℕ) :
    Outcome PathDiscoveryInfo PdAction :=
  if info.waitList.length ≤ tierIndex then .go info []
  else
    let info := probeFaces info tierIndex
    if isProducerNode node info.prefixKey then localNodeConverged info else .go info []

/-- `ProbeNextTier`. -/
def probeNextTier (node : Str) (info : PathDiscoveryInfo) : Outcome PathDiscoveryInfo PdAction :=
  let nextTier := info.currentTier + 1
  probeTier node { info with currentTier := nextTier } nextTier

/-- The first steps of `StartPathDiscovery`: all nexthops are valid and awaited, then the
expensive tiers are given up. -/
def beginDiscovery : PathDiscoveryInfo :=
  let faces := (tierFaces info.tierList).toFinset
  (expensiveTiers info.tierCostList).foldl removeTier { info with
    validUpstreams := faces
    convergedUpstreamNode := faces
    currentTier := 0 }

/-- `StartPathDiscovery`. -/
def startPathDiscovery (node : Str) (info : PathDiscoveryInfo) :
    Outcome PathDiscoveryInfo PdAction :=
  let info := beginDiscovery info
  (probeTier node info info.currentTier).bind fun info =>
    .go { info with probedSchedulerIndex := 0 } []

end Mars
