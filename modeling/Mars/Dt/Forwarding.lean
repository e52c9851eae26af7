import Mars.Dt.Queues
import Mars.PathDiscovery.Runs
import Mathlib.Data.Finset.Sort

/-!
The data-transmission handlers of a node, and its runs.

A node has the path-discovery states of its prefixes, the DT state of its threads, the state
of the failure experiment and the time of the next scheduler epoch.

* `dtFailureSnapshot`, `syncDtFailureState`, `armDtFailureAfterPdConvergence`: the failure
  experiment, in which one face is disabled for a while;
* `handleDataTransmissionInterest`, `handleTransmissionNack`: the handlers of DT packets;
* `onTick`: what a thread does at each tick of its strategy;
* `nodeHandle`, `nodeRun`: the runs of a node.
-/

namespace Mars

/-! ### The state of a node -/

/-- The configuration of a node: its name, `CfgNumThreads` and `dtFailureConfig`. -/
structure NodeConfig where
  nodeName : Str
  numThreads : ℕ
  enabled : Bool
  startOffset : Time
  endOffset : Time
  expectedPrefixes : ℕ

/-- `dtFailureNodeState`. -/
structure DtFailureNodeState where
  convergedPrefixes : Finset Str
  candidateFaces : Finset Face
  armed : Bool
  active : Bool
  recovered : Bool
  startTime : Time
  endTime : Time
  failedFace : Face
  activationEpoch : ℕ

def DtFailureNodeState.new : DtFailureNodeState := ⟨∅, ∅, false, false, false, 0, 0, 0, 0⟩

/-- `dtFailureSnapshot`. -/
structure DtFailureSnapshot where
  active : Bool
  failedFace : Face
  activationEpoch : ℕ

/-- The state of a node. -/
structure Node where
  pd : PdStore
  dt : DtNode
  failure : DtFailureNodeState
  dtFastSchedulerNext : Option Time

def Node.new : Node := ⟨PdStore.init, .new, .new, none⟩

/-- What a node does with DT Interests, besides editing its state, and what its
path-discovery handlers do. -/
inductive NodeAction where
  | sendInterest (packet : FwInterest) (pitEntry : ℕ) (nexthop inFace : Face)
  | enqueue (packet : FwInterest) (pitEntry : ℕ) (assignedFace inFace : Face)
  | sendNack (nexthop inFace : Face) (reason : ℕ)
  | pd (action : PdAction)
  deriving DecidableEq

/-! ### The failure experiment -/

variable (cfg : NodeConfig) (threadID : ℕ) (node : Node)

/-- The experiment runs on consumer nodes: `dtFailureEligibleNode` of the normalised name. -/
def failureEnabled : Bool :=
  cfg.enabled && hasPrefix (trimPrefix cfg.nodeName ['/']) ['c', 'o', 'n']

/-- `armDtFailureAfterPdConvergence`: once enough prefixes have converged, the smallest of
their faces is the one to fail; with fewer than two faces the experiment is skipped. -/
def armDtFailureAfterPdConvergence (state : DtFailureNodeState) (info : PathDiscoveryInfo)
    (now : Time) : DtFailureNodeState :=
  if !failureEnabled cfg ∨ state.armed ∨ state.recovered then state
  else
    let state := { state with
      convergedPrefixes := insert info.prefixKey state.convergedPrefixes
      candidateFaces := state.candidateFaces ∪ info.dtValidFaces.toFinset }
    if state.convergedPrefixes.card < cfg.expectedPrefixes then state
    else
      match state.candidateFaces.sort (· ≤ ·) with
      | failed :: _ :: _ =>
        { state with
          failedFace := failed
          startTime := now + cfg.startOffset
          endTime := now + cfg.endOffset
          armed := true }
      | _ => { state with recovered := true }

/-- `dtFailureSnapshot`: the window opens and closes as time passes. -/
def dtFailureSnapshot (state : DtFailureNodeState) (now : Time) :
    DtFailureNodeState × DtFailureSnapshot :=
  if !failureEnabled cfg then (state, ⟨false, 0, 0⟩)
  else if !state.armed ∨ state.failedFace = 0 then (state, ⟨false, state.failedFace, 0⟩)
  else
    let state :=
      if state.active ∧ state.endTime ≤ now then { state with active := false, recovered := true }
      else state
    let state :=
      if !state.active ∧ !state.recovered ∧ state.startTime ≤ now ∧ now < state.endTime then
        { state with active := true, activationEpoch := state.activationEpoch + 1 }
      else state
    (state, ⟨state.active, state.failedFace, state.activationEpoch⟩)

/-- `dtBlockedFace`, of a snapshot. -/
def DtFailureSnapshot.blocks (snapshot : DtFailureSnapshot) (face : Face) : Bool :=
  snapshot.active && decide (snapshot.failedFace = face)

/-- The second half of `syncDtFailureState`: a thread that sees a new failure reassigns its
items. -/
def applySnapshot (snapshot : DtFailureSnapshot) (wish : List Str) : Node :=
  let applied := (node.dt.threads threadID).dtFailureAppliedEpoch
  if snapshot.active ∧ snapshot.activationEpoch ≠ 0 ∧ snapshot.activationEpoch ≠ applied then
    let view := reassignLocalDtInterestsFromFailedFace cfg.numThreads threadID
      (node.dt.view threadID) snapshot.failedFace (fun key => (node.pd key).dtValidFaces) wish
    let own := { view.own with dtFailureAppliedEpoch := snapshot.activationEpoch }
    { node with dt := node.dt.write threadID ⟨view.shared, own⟩ }
  else node

/-- `syncDtFailureState`. -/
def syncDtFailureState (now : Time) (wish : List Str) : Node × DtFailureSnapshot :=
  let taken := dtFailureSnapshot cfg node.failure now
  (applySnapshot cfg threadID { node with failure := taken.1 } taken.2 wish, taken.2)

/-! ### DT Interests -/

/-- The control states of some faces are activated. -/
def activateFaces (shared : DtShared) (faces : List Face) (now : Time) : DtShared :=
  faces.foldl (fun shared face =>
    shared.onFace face fun control => ensureDtControlActivated control now) shared

/-- The test of `splitDtShapingReadyFaces`. -/
def isReady (shared : DtShared) (face : Face) : Bool :=
  (shared.dtFaceControlByFace face).activated
    && decide (0 < (shared.dtFaceControlByFace face).rate)

/-- `selectDtBootstrapFaceRRLocked`. -/
def selectDtBootstrapFaceRR (info : PathDiscoveryInfo) (candidateFaces : List Face) :
    PathDiscoveryInfo × Face :=
  if candidateFaces = [] then (info, 0)
  else
    let idx := if candidateFaces.length ≤ info.dtBootstrapFaceRR then 0
      else info.dtBootstrapFaceRR
    ({ info with dtBootstrapFaceRR := (idx + 1) % candidateFaces.length },
      candidateFaces.getD idx 0)

def dtPartialBootstrapProbeEvery : ℕ := 8

/-- The faces that `handleDataTransmissionInterest` chooses from: the valid ones of a converged
prefix, else all nexthops, without a failed face. -/
def dtFacesOf (info : PathDiscoveryInfo) (nexthops : List FibNextHopEntry)
    (snapshot : DtFailureSnapshot) : List Face :=
  let candidateFaces := (nexthops.map (·.nexthop)).mergeSort (· ≤ ·)
  let faces :=
    if info.isNodeConverged ∧ info.dtValidFaces ≠ [] then info.dtValidFaces else candidateFaces
  if snapshot.active then dtFilterFacesWithoutFailure faces snapshot.failedFace else faces

/-- A DT Interest is sent at once, on a face found by round robin. -/
def sendBootstrap (key : Str) (packet : FwInterest) (pitEntry : ℕ) (inFace : Face)
    (info : PathDiscoveryInfo) (candidateFaces : List Face) : Node × List NodeAction :=
  let chosen := selectDtBootstrapFaceRR info candidateFaces
  ({ node with pd := Function.update node.pd key chosen.1 },
    [.sendInterest packet pitEntry chosen.2 inFace])

/-- The end of `handleDataTransmissionInterest`: a ready face is assigned by weighted round
robin, and the Interest is enqueued. -/
def enqueueShaped (key : Str) (packet : FwInterest) (pitEntry : ℕ) (inFace : Face)
    (readyFaces : List Face) : Node × List NodeAction :=
  let chosen := (node.dt.view threadID).selectFace key readyFaces
  if chosen.2 = 0 then ({ node with dt := node.dt.write threadID chosen.1 }, [])
  else
    let view := enqueueLocalDtInterest cfg.numThreads threadID chosen.1 key
      ⟨packet, pitEntry, inFace, threadID, readyFaces, chosen.2⟩
    ({ node with dt := node.dt.write threadID view }, [.enqueue packet pitEntry chosen.2 inFace])

/-- `handleDataTransmissionInterest` once the faces are known and under rate control: while
no face is ready the Interest is sent at once; while only some are, every eighth Interest
probes one that is not. -/
def shapeInterest (key : Str) (packet : FwInterest) (pitEntry : ℕ) (inFace : Face)
    (dtFaces : List Face) (now : Time) : Node × List NodeAction :=
  let shared := activateFaces node.dt.shared dtFaces now
  let node := { node with dt := { node.dt with shared := shared } }
  let info := node.pd key
  let readyFaces := dtFaces.filter (isReady shared)
  let unreadyFaces := dtFaces.filter (!isReady shared ·)
  if readyFaces = [] then sendBootstrap node key packet pitEntry inFace info dtFaces
  else if unreadyFaces ≠ [] then
    let info := { info with dtBootstrapProbeCounter := info.dtBootstrapProbeCounter + 1 }
    if info.dtBootstrapProbeCounter % dtPartialBootstrapProbeEvery = 0 then
      sendBootstrap node key packet pitEntry inFace info unreadyFaces
    else
      enqueueShaped cfg threadID { node with pd := Function.update node.pd key info } key packet
        pitEntry inFace readyFaces
  else enqueueShaped cfg threadID node key packet pitEntry inFace readyFaces

/-- `handleDataTransmissionInterest` after `syncDtFailureState`. -/
def routeInterest (packet : FwInterest) (pitEntry : ℕ) (inFace : Face)
    (nexthops : List FibNextHopEntry) (snapshot : DtFailureSnapshot) (now : Time) :
    Node × List NodeAction :=
  if nexthops = [] then (node, [])
  else
    let key := prefixKeyOf packet.name
    let info := node.pd key
    let dtFaces := dtFacesOf info nexthops snapshot
    if dtFaces = [] then (node, [])
    else if info.isNodeConverged ∧ !info.dtFaceRateControlEnabled then
      (node, [.sendInterest packet pitEntry (dtFaces.headD 0) inFace])
    else shapeInterest cfg threadID node key packet pitEntry inFace dtFaces now

/-- `handleDataTransmissionInterest`. -/
def handleDataTransmissionInterest (packet : FwInterest) (pitEntry : ℕ) (inFace : Face)
    (nexthops : List FibNextHopEntry) (now : Time) (wish : List Str) : Node × List NodeAction :=
  let synced := syncDtFailureState cfg threadID node now wish
  routeInterest cfg threadID synced.1 packet pitEntry inFace nexthops synced.2 now

/-! ### DT NACKs -/

/-- The face that sent a NoRoute NACK is dropped from `ActiveFaces`. -/
def dropActiveFace (info : PathDiscoveryInfo) (inFace : Face) : PathDiscoveryInfo :=
  if inFace ∈ info.activeFaces then
    let activeFaces := info.activeFaces.erase inFace
    { info with
      activeFaces := activeFaces
      activeFaceIndex :=
        if activeFaces.length ≤ info.activeFaceIndex then 0 else info.activeFaceIndex }
  else info

/-- `handleTransmissionNack`. -/
def handleTransmissionNack (name : Name) (inFace : Face) (nackReason : ℕ) (inRecords : List Face) :
    Node × List NodeAction :=
  let key := prefixKeyOf name
  let info :=
    if nackReason = nackReasonNoRoute then dropActiveFace (node.pd key) inFace else node.pd key
  ({ node with pd := Function.update node.pd key info },
    (inRecords.filter (· ≠ inFace)).map fun faceID => .sendNack faceID inFace nackReason)

/-! ### Ticks -/

/-- `runDtControllerTick`, without the rounds of the rate controller: a blocked face is
cleared, the budgets of every other one are allocated. -/
def runDtControllerTick (shared : DtShared) (snapshot : DtFailureSnapshot) (now : Time) :
    DtShared :=
  { shared with dtFaceControlByFace := fun face =>
      let control := shared.dtFaceControlByFace face
      if snapshot.blocks face then
        clearDtFaceBlockedState (ensureDtControlThreadSlots cfg.numThreads control) now
      else (allocateDtFaceBudgets cfg.numThreads control now false).state }

def strategyTickInterval : Time := 2000000

/-- `runDtFastSchedulerEpochIfDue`. -/
def runDtFastSchedulerEpochIfDue (snapshot : DtFailureSnapshot) (now : Time) : Node :=
  if node.dtFastSchedulerNext.any (now < ·) then node
  else
    { node with
      dtFastSchedulerNext := some (now + strategyTickInterval)
      dt := { node.dt with shared := runDtControllerTick cfg node.dt.shared snapshot now } }

def dtSchedulerMaxFacesPerTick : ℕ := 16

/-- The loop of `drainLocalDtQueues`, with the items sent and their faces. -/
def drainFaces (n threadID : ℕ) (snapshot : DtFailureSnapshot) :
    ℕ → DtView → DtView × List (Face × InterestQueueItem)
  | 0, view => (view, [])
  | visits + 1, view =>
    let faces := view.own.dtLocalFaceOrder
    let face := faces.getD (view.own.dtLocalFaceRR % faces.length) 0
    let view := { view with own := { view.own with dtLocalFaceRR := view.own.dtLocalFaceRR + 1 } }
    let drained := drainDtInterestForFace n threadID view face (snapshot.blocks face)
    let rest := drainFaces n threadID snapshot visits drained.1
    (rest.1, drained.2.map (face, ·) ++ rest.2)

/-- `drainLocalDtQueues`. -/
def drainLocalDtQueues (n threadID : ℕ) (snapshot : DtFailureSnapshot) (view : DtView) :
    DtView × List (Face × InterestQueueItem) :=
  drainFaces n threadID snapshot
    (min view.own.dtLocalFaceOrder.length dtSchedulerMaxFacesPerTick) view

/-- `OnTick`. -/
def onTick (now : Time) (wish : List Str) : Node × List NodeAction :=
  let synced := syncDtFailureState cfg threadID node now wish
  let node := runDtFastSchedulerEpochIfDue cfg synced.1 synced.2 now
  let drained := drainLocalDtQueues cfg.numThreads threadID synced.2 (node.dt.view threadID)
  ({ node with dt := node.dt.write threadID drained.1 },
    drained.2.map fun sent => .sendInterest sent.2.packet sent.2.pitEntry sent.1 sent.2.inFace)

/-! ### Runs of a node -/

/-- The part of `localNodeConverged` that works on the state shared by all prefixes. -/
def afterConvergence (now : Time) (node : Node) : PdAction → Node
  | .localNodeConverged info =>
    let node := { node with failure := armDtFailureAfterPdConvergence cfg node.failure info now }
    if info.dtFaceRateControlEnabled then
      { node with dt := { node.dt with
          shared := activateFaces node.dt.shared info.dtValidFaces now } }
    else node
  | _ => node

/-- A step of a node: a path-discovery packet, a DT Interest or NACK, a tick of a thread, or a
round of the rate controller of a face. -/
inductive NodeEvent where
  | pd (e : PdEvent) (now : Time)
  | dtInterest (threadID : ℕ) (packet : FwInterest) (pitEntry : ℕ) (inFace : Face)
      (nexthops : List FibNextHopEntry) (now : Time) (wish : List Str)
  | dtNack (name : Name) (inFace : Face) (nackReason : ℕ) (inRecords : List Face)
  | tick (threadID : ℕ) (now : Time) (wish : List Str)
  | rateRound (face : Face) (newRate : Option ℚ) (starved : Bool)

/-- What a node does on an event. -/
def nodeHandle : NodeEvent → Node × List NodeAction
  | .pd e now =>
    let r := pdHandle cfg.nodeName node.pd e
    (r.out.foldl (afterConvergence cfg now) { node with pd := r.state }, r.out.map .pd)
  | .dtInterest threadID packet pitEntry inFace nexthops now wish =>
    handleDataTransmissionInterest cfg threadID node packet pitEntry inFace nexthops now wish
  | .dtNack name inFace nackReason inRecords =>
    handleTransmissionNack node name inFace nackReason inRecords
  | .tick threadID now wish => onTick cfg threadID node now wish
  | .rateRound face newRate starved =>
    let shared := node.dt.shared.onFace face (noteRateRound · newRate starved)
    ({ node with dt := { node.dt with shared := shared } }, [])

/-- The node after an event. -/
def nodeStep (e : NodeEvent) : Node := (nodeHandle cfg node e).1

/-- The node after a sequence of events. -/
def nodeRun (es : List NodeEvent) : Node := Steps.run (nodeStep cfg) .new es

/-! ### A small node -/

/-- A consumer node with one thread and no failure experiment. -/
def plainNode : NodeConfig := ⟨conNode, 1, false, 0, 0, 0⟩

/-- A DT Interest. -/
def dtPacket (seq : Char) : FwInterest :=
  plainInterest [['p'], ['c', 'o', 'n'], ['d', 't'], [seq]] seq.toNat

/-- The prefix converges with the valid faces `2` and `3`. -/
def twoValidFaces : List NodeEvent :=
  [.pd (probe '0' 9 [(2, 1), (3, 1)]) 0, .pd (report 2 true true) 0, .pd (report 3 true true) 0]

end Mars
