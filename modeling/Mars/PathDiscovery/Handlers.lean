import Mars.PathDiscovery.Info

/-!
The bodies of the three path-discovery handlers of `multipath.go`.

A handler is a sequence of phases that may each return early (`Outcome`).  The phases of
`handlePathDiscoveryInterest` are named after what the source does there:
`screenRelevance`, `initializeDiscovery`, `advanceProbe`, `screenIngress`, `checkCurrentTier`,
`checkValidLeft` and `forwardProbe`; the NACK handler shares `checkCurrentTier`.
-/

namespace Mars

/-! ### The Interest handler -/

variable (node : Str) (info : PathDiscoveryInfo)

/-- The relevance test of `handlePathDiscoveryInterest`: a producer node serves the
prefixes that start with its name, a consumer node the Interests it is the source of,
and every other node serves none. -/
def isRelevant (key srcNode : Str) : Bool :=
  if hasPrefix node ['/', 'p', 'r', 'o'] then
    hasPrefix (trimPrefix key ['/']) (trimPrefix node ['/'])
  else if hasPrefix node ['/', 'c', 'o', 'n'] then
    hasPrefix (trimPrefix srcNode ['/']) (trimPrefix node ['/'])
  else false

/-- An irrelevant Interest marks the node invalid for the prefix; it and every Interest
at a node so marked is answered with a NACK. -/
def screenRelevance (relevant : Bool) (info : PathDiscoveryInfo) (inFace : Face) :
    Outcome PathDiscoveryInfo PdAction :=
  if !relevant then
    .ret { info with isInvalidNode := true } [.sendNack inFace inFace nackReasonNoRoute]
  else if info.isInvalidNode then
    .ret info [.sendNack inFace inFace nackReasonNoRoute]
  else .go info []

/-- The first relevant Interest of a prefix starts its discovery. -/
def initializeDiscovery (probeIdx : ℤ) (nexthops : List (Option FibNextHopEntry)) :
    Outcome PathDiscoveryInfo PdAction :=
  if info.isInitialized then .go info []
  else
    startPathDiscovery node (tierGrouping
      { info with isInitialized := true, probeIndex := probeIdx } (snapshotNexthops nexthops))

/-- A higher probe index refreshes the tiers and probes the next one; a lower one, and
one for which no tier is left, ends the handler. -/
def advanceProbe (probeIdx : ℤ) (nexthops : List (Option FibNextHopEntry)) :
    Outcome PathDiscoveryInfo PdAction :=
  if info.probeIndex < probeIdx then
    let info := refreshPathDiscoverySnapshot info nexthops
    if info.waitList.length ≤ info.currentTier + 1 then .ret info []
    else probeNextTier node { info with probeIndex := probeIdx }
  else if probeIdx = info.probeIndex then .go info []
  else .ret info []

/-- The first tier of the wait list in which the face occurs. -/
def tierOf (waitList : List (List HopSnapshot)) (face : Face) : Option (List HopSnapshot) :=
  waitList.find? fun tier => tier.any (·.nexthop = face)

/-- The removal of a whole tier is put off until each of its faces has been probed. -/
def freezeTier (tier : List HopSnapshot) : PathDiscoveryInfo :=
  let faces := (tier.map (·.nexthop)).toFinset
  { info with
    isPdFrozen := true
    frozenFaces := info.frozenFaces ∪ faces
    frozenRecoverFaces := info.frozenRecoverFaces ∪ faces }

/-- The ingress face is a downstream: it is given up at once if it is not probed yet,
else its tier is frozen, unless another freeze is pending. -/
def screenIngress (inFace : Face) : Outcome PathDiscoveryInfo PdAction :=
  if inFace ∈ info.probedUpstreams then
    match tierOf info.waitList inFace with
    | some tier => .go (if info.isPdFrozen then info else freezeTier info tier) []
    | none => .ret info []
  else .go (excludeFace info inFace) []

/-- `if s.isCurrentTierAllInvalid(info) { s.skipTier(info) }`. -/
def checkCurrentTier : Outcome PathDiscoveryInfo PdAction :=
  if isCurrentTierAllInvalid info then skipTier info else .go info []

/-- Without a valid upstream the node is invalid for the prefix. -/
def checkValidLeft (inFace : Face) : Outcome PathDiscoveryInfo PdAction :=
  if info.validUpstreams = ∅ then
    .ret { info with isInvalidNode := true } [.sendNack inFace inFace nackReasonNoRoute]
  else .go info []

/-- The end of a freeze: the faces of the frozen tier are given up. -/
def thaw : PathDiscoveryInfo :=
  { info.frozenRecoverFaces.val.foldl excludeFace { info with isPdFrozen := false } with
    frozenRecoverFaces := ∅ }

/-- The end of the Interest handler: probing a frozen face counts it off, and the last
one ends the freeze. -/
def countOffFrozen (outFace : Face) : PathDiscoveryInfo :=
  if info.isPdFrozen ∧ outFace ∈ info.frozenFaces then
    let info := { info with frozenFaces := info.frozenFaces.erase outFace }
    if info.frozenFaces = ∅ then thaw info else info
  else info

/-- The Interest goes to the next probed face in turn. -/
def forwardProbe (inFace : Face) : Outcome PathDiscoveryInfo PdAction :=
  if info.probedUpstreams = [] then .ret info []
  else
    let idx :=
      if info.probedUpstreams.length ≤ info.probedSchedulerIndex then 0
      else info.probedSchedulerIndex
    let outFace := info.probedUpstreams.getD idx 0
    let info := { info with probedSchedulerIndex := (idx + 1) % info.probedUpstreams.length }
    .go (countOffFrozen info outFace) [.sendInterest outFace inFace]

/-- What the Interest handler does only while the node has not converged. -/
def probePhase (probeIdx : ℤ) (inFace : Face) (nexthops : List (Option FibNextHopEntry)) :
    Outcome PathDiscoveryInfo PdAction :=
  if info.isNodeConverged then .go info []
  else
    (advanceProbe node info probeIdx nexthops).bind fun info =>
    (screenIngress info inFace).bind fun info =>
    (checkCurrentTier info).bind fun info =>
    checkValidLeft info inFace

/-- The part of `handlePathDiscoveryInterest` that runs under the lock of the prefix
state. -/
def pathDiscoveryInterest (srcNode : Str) (probeIdx : ℤ) (inFace : Face)
    (nexthops : List (Option FibNextHopEntry)) : Outcome PathDiscoveryInfo PdAction :=
  (screenRelevance (isRelevant node info.prefixKey srcNode) info inFace).bind fun info =>
  (initializeDiscovery node info probeIdx nexthops).bind fun info =>
  (probePhase node info probeIdx inFace nexthops).bind fun info =>
  forwardProbe info inFace

/-! ### The NACK and Data handlers -/

/-- `forwardNackDefault`: to every face with an in-record but the one the NACK came
from. -/
def forwardNackDefault (inRecords : List Face) (inFace : Face) (reason : ℕ) : List PdAction :=
  (inRecords.filter (· ≠ inFace)).map fun faceID => .sendNack faceID inFace reason

/-- A face that answers with NoRoute is given up, unless a freeze is pending. -/
def excludeNacked (inFace : Face) : PathDiscoveryInfo :=
  if info.isPdFrozen then info else excludeFace info inFace

/-- The part of `handlePathDiscoveryNack` that runs under the lock of the prefix
state. -/
def pathDiscoveryNack (inFace : Face) (nackReason : ℕ) (inRecords : List Face) :
    Outcome PathDiscoveryInfo PdAction :=
  if nackReason = nackReasonNoRoute then
    if info.isInvalidNode then .ret info (forwardNackDefault inRecords inFace nackReason)
    else
      (checkCurrentTier (excludeNacked info inFace)).bind fun info =>
      if info.validUpstreams = ∅ then
        .ret { info with isInvalidNode := true }
          (forwardNackDefault inRecords inFace nackReasonNoRoute)
      else .ret info (forwardNackDefault inRecords inFace nackReasonNone)
  else if nackReason = nackReasonNone then
    .ret info (forwardNackDefault inRecords inFace nackReasonNone)
  else .ret info []

/-- What `handlePathDiscoveryData` finds in a Data packet: bytes that are no Data, a
payload that is no `DiscoveryPacket`, or the two flags of one. -/
inductive PdPayload where
  | undecodable
  | malformed
  | discovery (tierConverged nodeConverged : Bool)
  deriving DecidableEq, Repr

/-- A report that the tier has converged counts off the face, unless a freeze is
pending. -/
def countOffTier (inFace : Face) : PathDiscoveryInfo :=
  if info.isPdFrozen then info
  else { info with convergedUpstreamTier := info.convergedUpstreamTier.erase inFace }

/-- The tier part of the convergence logic: once no face is awaited and no higher tier is
left the node converges. -/
def reportTier (inFace : Face) : Outcome PathDiscoveryInfo PdAction :=
  let info := countOffTier info inFace
  if info.convergedUpstreamTier = ∅ ∧ areHigherTiersEmpty info then localNodeConverged info
  else .go info []

/-- The tier part runs only for a packet that reports its tier as converged. -/
def processTier (inFace : Face) (tierConverged : Bool) : Outcome PathDiscoveryInfo PdAction :=
  if tierConverged then reportTier info inFace else .go info []

/-- The node part of the convergence logic. -/
def reportNode (inFace : Face) : PathDiscoveryInfo :=
  { info with convergedUpstreamNode := info.convergedUpstreamNode.erase inFace }

/-- The node part runs only for a packet that reports its node as converged. -/
def processNode (inFace : Face) (nodeConverged : Bool) : PathDiscoveryInfo :=
  if nodeConverged then reportNode info inFace else info

/-- The `TierConverged` flag that is sent on.  Convergence clears the awaited faces, so
the test may be read off the state the tier part leaves. -/
def outTierConverged (tierConverged : Bool) : Bool :=
  (tierConverged && decide (info.convergedUpstreamTier = ∅))
    || hasPrefix node ['/', 'p', 'r', 'o']

/-- The `NodeConverged` flag that is sent on. -/
def outNodeConverged (nodeConverged : Bool) : Bool :=
  nodeConverged && info.isNodeConverged && decide (info.convergedUpstreamNode = ∅)

/-- The part of `handlePathDiscoveryData` that runs under the lock of the prefix
state. -/
def pathDiscoveryData (inFace : Face) (tierConverged nodeConverged : Bool) (inRecords : List Face) :
    Outcome PathDiscoveryInfo PdAction :=
  (processTier info inFace tierConverged).bind fun info =>
    let outTier := outTierConverged node info tierConverged
    let info := processNode info inFace nodeConverged
    .ret info (inRecords.map fun faceID =>
      .sendData faceID inFace outTier (outNodeConverged info nodeConverged))

end Mars
