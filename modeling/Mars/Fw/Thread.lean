import Mars.Dt.Forwarding
import Mars.Encoding.Name
import Mars.Table.DeadNonceList

/-!
The pipelines of a forwarding thread: `thread.go`, the strategies `bestroute.go` and
`multicast.go`, and the part of `multipath.go` that hands a packet to its handler.

A thread owns its PIT and content store, its dead nonce list and its DT queues.  The faces, the
FIB, the strategy choices and the state that all threads of the node share may change at any time.

* `outgoingInterest`, `outgoingData`, `outgoingNack`: the pipelines of outgoing packets;
* `afterReceiveInterest`, `afterReceiveLoopedInterest`, `afterReceiveNack`, `afterReceiveData`:
  what the strategy of a name does;
* `processIncomingInterest`, `processIncomingData`, `processIncomingNack`: the pipelines of
  incoming packets;
* `updatePit`: the expiry of PIT entries;
* `ThreadEvent`, `threadHandle`, `threadRun`: the runs of a thread.
-/

namespace Mars

/-! ### The state of a thread -/

/-- What the pipelines read of a face. -/
structure FaceInfo where
  isLocal : Bool
  adHoc : Bool
  deriving DecidableEq, Repr

/-- The configuration of a thread; `discoveryPayload` is what `handlePathDiscoveryData` finds in
the wire of a Data packet. -/
structure ThreadConfig where
  node : NodeConfig
  table : TableConfig
  threadID : ℕ
  discoveryPayload : Bytes → PdPayload

/-- The strategies that `strategyInit` lists. -/
inductive Strategy where
  | bestRoute
  | multicast
  | multipath

/-- `Thread`, with the node it belongs to, the face table, and what the FIB finds for a name:
its nexthops and its strategy. -/
structure Thread where
  node : Node
  pitCS : PitCsTree
  deadNonceList : DeadNonceList
  faces : Face → Option FaceInfo
  fib : Name → List FibNextHopEntry
  strategies : Name → Strategy

/-- `NewThread`; the root of the FIB has the default strategy. -/
def Thread.new : Thread := ⟨.new, .new, .new, fun _ => none, fun _ => [], fun _ => .bestRoute⟩

/-- Change a PIT entry. -/
def Thread.onEntry (t : Thread) (e : ℕ) (f : NameTreePitEntry → NameTreePitEntry) : Thread :=
  { t with pitCS := t.pitCS.onEntry e f }

/-- A packet that is handed to a face; the flags are those of a rewritten `DiscoveryPacket`. -/
inductive OutPkt where
  | interest (packet : FwInterest) (nexthop inFace : Face) (pitToken : Bytes)
  | data (data : FwData) (flags : Option (Bool × Bool)) (nexthop inFace : Face)
      (pitToken : Bytes)
  | nack (packet : FwInterest) (nexthop inFace : Face) (reason : ℕ) (pitToken : Bytes)
  deriving DecidableEq, Repr

/-- Do one thing after another. -/
def Thread.each {β : Type*} (f : Thread → β → Thread × List OutPkt) :
    List β → Thread → Thread × List OutPkt
  | [], t => (t, [])
  | b :: bs, t =>
    let r := f t b
    let rest := Thread.each f bs r.1
    (rest.1, r.2 ++ rest.2)

/-! ### PIT tokens -/

/-- The token of an outgoing Interest: the thread, then the entry. -/
def makePitToken (threadID token : ℕ) : Bytes := bigEndian 2 threadID ++ bigEndian 4 token

/-! ### Outgoing packets -/

def localhost : Str := ['l', 'o', 'c', 'a', 'l', 'h', 'o', 's', 't']

def localhop : Str := ['l', 'o', 'c', 'a', 'l', 'h', 'o', 'p']

/-- A name under `/localhost` that would cross a non-local face. -/
def violatesLocalhost (face : FaceInfo) (name : Name) : Bool :=
  !face.isLocal && decide (name.head? = some localhost)

variable (cfg : ThreadConfig) (t : Thread)

/-- `processOutgoingInterest`, with the result it returns. -/
def outgoingInterest (packet : FwInterest) (pitEntry : ℕ) (nexthop inFace : Face) (now : Time) :
    Thread × Bool × List OutPkt :=
  match t.faces nexthop with
  | none => (t, false, [])
  | some face =>
    if nexthop = inFace ∧ !face.adHoc then (t, true, [])
    else if packet.hopLimit = some 0 ∧ !face.isLocal then (t, false, [])
    else
      (t.onEntry pitEntry (·.insertOutRecord packet nexthop now), true,
        [.interest packet nexthop inFace
          (makePitToken cfg.threadID (t.pitCS.entries pitEntry).token)])

/-- `processOutgoingData`. -/
def outgoingData (data : FwData) (flags : Option (Bool × Bool)) (nexthop : Face) (pitToken : Bytes)
    (inFace : Face) : List OutPkt :=
  match t.faces nexthop with
  | none => []
  | some face =>
    if violatesLocalhost face data.name then [] else [.data data flags nexthop inFace pitToken]

/-- `SendData`: the in-record of the face gives the token and is removed. -/
def sendData (data : FwData) (flags : Option (Bool × Bool)) (pitEntry : ℕ) (nexthop inFace : Face) :
    Thread × List OutPkt :=
  match (t.pitCS.entries pitEntry).inRecords.find? (·.face = nexthop) with
  | none => (t, outgoingData t data flags nexthop [] inFace)
  | some record =>
    (t.onEntry pitEntry fun entry =>
        { entry with inRecords := entry.inRecords.filter (·.face ≠ nexthop) },
      outgoingData t data flags nexthop record.pitToken inFace)

/-- `processOutgoingNack`: the token of the in-record, else one made for the entry. -/
def outgoingNack (packet : FwInterest) (pitEntry : ℕ) (nexthop inFace : Face) (reason : ℕ) :
    List OutPkt :=
  match t.faces nexthop with
  | none => []
  | some face =>
    if violatesLocalhost face packet.name then []
    else
      let entry := t.pitCS.entries pitEntry
      let pitToken :=
        match entry.inRecords.find? (·.face = nexthop) with
        | some record =>
          if record.pitToken = [] then makePitToken cfg.threadID entry.token
          else record.pitToken
        | none => makePitToken cfg.threadID entry.token
      [.nack packet nexthop inFace reason pitToken]

/-! ### The strategies -/

/-- The type of a packet: the third component of its name. -/
inductive PacketType where
  | pd
  | dt
  | bestRoute
  deriving DecidableEq, Repr

/-- The test with which `Multipath` picks a handler. -/
def packetType (name : Name) : PacketType :=
  if name[2]? = some ['p', 'd'] then .pd
  else if name[2]? = some ['d', 't'] then .dt
  else .bestRoute

/-- `SendInterest`, as the DT queues ask for it. -/
def sendQueued (now : Time) (t : Thread) : NodeAction → Thread × List OutPkt
  | .sendInterest packet pitEntry nexthop inFace =>
    let r := outgoingInterest cfg t packet pitEntry nexthop inFace now
    (r.1, r.2.2)
  | _ => (t, [])

/-- What a handler that was called with an Interest or a NACK, and with a PIT entry, sends. -/
def sendForInterest (packet : FwInterest) (pitEntry : ℕ) (now : Time) (t : Thread) :
    NodeAction → Thread × List OutPkt
  | .sendNack nexthop inFace reason | .pd (.sendNack nexthop inFace reason) =>
    (t, outgoingNack cfg t packet pitEntry nexthop inFace reason)
  | .pd (.sendInterest nexthop inFace) =>
    let r := outgoingInterest cfg t packet pitEntry nexthop inFace now
    (r.1, r.2.2)
  | a => sendQueued cfg now t a

/-- What a handler that was called with a Data packet sends. -/
def sendForData (data : FwData) (pitEntry : ℕ) (t : Thread) : NodeAction → Thread × List OutPkt
  | .pd (.sendData nexthop inFace tierConverged nodeConverged) =>
    sendData t data (some (tierConverged, nodeConverged)) pitEntry nexthop inFace
  | .pd (.sendDataUnread nexthop inFace) => sendData t data none pitEntry nexthop inFace
  | _ => (t, [])

/-- A handler of the strategy runs, and then what it sends is sent. -/
def Thread.handle (e : NodeEvent) (send : Thread → NodeAction → Thread × List OutPkt) :
    Thread × List OutPkt :=
  let r := nodeHandle cfg.node t.node e
  Thread.each send r.2 { t with node := r.1 }

def multipathFallbackSuppressionTime : Time := 20000000

/-- A pass of `handleBestRouteInterest` over the nexthops, and whether the handler is done: in
the first pass a nexthop with an out-record is skipped, and one that is recent ends it. -/
def bestRoutePass (cfg : ThreadConfig) (packet : FwInterest) (pitEntry : ℕ) (inFace : Face)
    (now : Time) (first : Bool) : List FibNextHopEntry → Thread → Thread × Bool × List OutPkt
  | [], t => (t, false, [])
  | nh :: hops, t =>
    let send :=
      let r := outgoingInterest cfg t packet pitEntry nh.nexthop inFace now
      if r.2.1 then r
      else bestRoutePass cfg packet pitEntry inFace now first hops t
    match (t.pitCS.entries pitEntry).outRecords.find? (·.face = nh.nexthop) with
    | none => send
    | some record =>
      if !first then send
      else if now < record.latestTimestamp + multipathFallbackSuppressionTime then
        (t, true, [])
      else bestRoutePass cfg packet pitEntry inFace now first hops t

/-- `handleBestRouteInterest`. -/
def handleBestRouteInterest (packet : FwInterest) (pitEntry : ℕ) (inFace : Face)
    (nexthops : List FibNextHopEntry) (now : Time) : Thread × List OutPkt :=
  let hops := nexthops.mergeSort fun a b => a.cost ≤ b.cost
  let pass := bestRoutePass cfg packet pitEntry inFace now true hops t
  if pass.2.1 then (pass.1, pass.2.2)
  else
    let pass := bestRoutePass cfg packet pitEntry inFace now false hops pass.1
    (pass.1, pass.2.2)

/-- `SendInterest` to each of the nexthops. -/
def sendInterests (packet : FwInterest) (pitEntry : ℕ) (inFace : Face)
    (nexthops : List FibNextHopEntry) (now : Time) : Thread × List OutPkt :=
  Thread.each (sendQueued cfg now)
    (nexthops.map fun nh => .sendInterest packet pitEntry nh.nexthop inFace) t

def sortNexthopsByCost (nexthops : List FibNextHopEntry) : List FibNextHopEntry :=
  nexthops.insertionSort fun a b => a.cost < b.cost ∨ a.cost = b.cost ∧ a.nexthop ≤ b.nexthop

def multicastSuppressionTime : Time := 500000000

/-- `Multicast` drops a retransmission when the entry has sent another nonce only just. -/
def suppressed (packet : FwInterest) (pitEntry : ℕ) (now : Time) : Bool :=
  (t.pitCS.entries pitEntry).outRecords.any fun record =>
    some record.latestNonce ≠ packet.nonce ∧ now < record.latestTimestamp + multicastSuppressionTime

/-- `AfterReceiveInterest`.  `BestRoute` has the mode `strict-least-cost`: it tries only the
first nexthop. -/
def afterReceiveInterest (packet : FwInterest) (pitEntry : ℕ) (inFace : Face)
    (nexthops : List FibNextHopEntry) (now : Time) (wish : List Str) : Thread × List OutPkt :=
  match t.strategies packet.name, packetType packet.name with
  | .bestRoute, _ =>
    sendInterests cfg t packet pitEntry inFace ((sortNexthopsByCost nexthops).take 1) now
  | .multicast, _ =>
    if suppressed t packet pitEntry now then (t, [])
    else sendInterests cfg t packet pitEntry inFace nexthops now
  | .multipath, .pd =>
    t.handle cfg (.pd (.interest packet.name inFace (nexthops.map some)) now)
      (sendForInterest cfg packet pitEntry now)
  | .multipath, .dt =>
    t.handle cfg (.dtInterest cfg.threadID packet pitEntry inFace nexthops now wish)
      (sendForInterest cfg packet pitEntry now)
  | .multipath, .bestRoute => handleBestRouteInterest cfg t packet pitEntry inFace nexthops now

/-- `AfterReceiveLoopedInterest`. -/
def afterReceiveLoopedInterest (packet : FwInterest) (pitEntry : ℕ) (inFace : Face) : List OutPkt :=
  match t.strategies packet.name, packetType packet.name with
  | .multipath, .pd => outgoingNack cfg t packet pitEntry inFace inFace nackReasonNone
  | _, _ => []

/-- The faces of the in-records of an entry: the keys of `InRecords`. -/
def Thread.inFaces (pitEntry : ℕ) : List Face :=
  ((t.pitCS.entries pitEntry).inRecords.map (·.face)).dedup

/-- `AfterReceiveNack`; what `Multipath` does with other names, the other strategies always do. -/
def afterReceiveNack (packet : FwInterest) (pitEntry : ℕ) (inFace : Face) (nackReason : ℕ)
    (now : Time) : Thread × List OutPkt :=
  match t.strategies packet.name, packetType packet.name with
  | .multipath, .pd =>
    t.handle cfg (.pd (.nack packet.name inFace nackReason (t.inFaces pitEntry)) now)
      (sendForInterest cfg packet pitEntry now)
  | .multipath, .dt =>
    t.handle cfg (.dtNack packet.name inFace nackReason (t.inFaces pitEntry))
      (sendForInterest cfg packet pitEntry now)
  | _, _ =>
    (t, ((t.inFaces pitEntry).filter (· ≠ inFace)).flatMap fun faceID =>
      outgoingNack cfg t packet pitEntry faceID inFace nackReason)

/-- `AfterReceiveData`.  The measurements of `handleTransmissionData` are the rounds of the rate
controller; it sends the Data to all in-records, with queue lengths of its own. -/
def afterReceiveData (data : FwData) (pitEntry : ℕ) (inFace : Face) (now : Time) :
    Thread × List OutPkt :=
  match t.strategies data.name, packetType data.name with
  | .multipath, .pd =>
    t.handle cfg (.pd (.data data.name inFace (cfg.discoveryPayload data.wire)
      (t.inFaces pitEntry)) now) (sendForData data pitEntry)
  | _, _ =>
    Thread.each (fun t faceID => sendData t data none pitEntry faceID inFace)
      (t.inFaces pitEntry) t

/-! ### Incoming Interests -/

/-- An incoming Interest with what its link carries. -/
structure InterestPkt where
  interest : FwInterest
  incomingFaceID : Face
  pitToken : Bytes
  nextHopFaceID : Option Face

/-- `IsProducer` of the network region table. -/
def isProducer (cfg : TableConfig) (name : Name) : Bool :=
  cfg.producerRegions.any fun region => region.isPrefixOf name

/-- The forwarding hint that is used: the first one, unless one reaches a producer region. -/
def forwardingHintOf (cfg : TableConfig) (names : List Name) : Option Name :=
  if names.any (isProducer cfg) then none else names.head?

/-- The nexthops that `processIncomingInterest` allows: not back, not away from this host for a
name under `/localhop` from elsewhere, and not to a face with an in-record. -/
def allowedNexthops (incoming : FaceInfo) (inFace : Face) (name : Name) (pitEntry : ℕ)
    (nexthops : List FibNextHopEntry) : List FibNextHopEntry :=
  let localFacesOnly := !incoming.isLocal && decide (name.head? = some localhop)
  nexthops.filter fun nh =>
    decide (nh.nexthop ≠ inFace)
      && !(localFacesOnly && (t.faces nh.nexthop).any fun face => !face.isLocal)
      && decide (nh.nexthop ∉ t.inFaces pitEntry)

/-- The end of `processIncomingInterest`: the timer of the entry, then the face the packet asks
for or the strategy. -/
def forwardInterest (pkt : InterestPkt) (interest : FwInterest) (incoming : FaceInfo)
    (hint : Option Name) (pitEntry : ℕ) (inRecord : PitInRecord) (now : Time) (wish : List Str) :
    Thread × List OutPkt :=
  let inFace := pkt.incomingFaceID
  let t :=
    if (t.pitCS.entries pitEntry).expirationTime < inRecord.expirationTime then
      { t with pitCS := t.pitCS.updateExpirationTimer pitEntry inRecord.expirationTime }
    else t
  match pkt.nextHopFaceID with
  | some hop =>
    if (t.faces hop).isSome then
      let r := outgoingInterest cfg t interest pitEntry hop inFace now
      (r.1, r.2.2)
    else (t, [])
  | none =>
    let nexthops := allowedNexthops t incoming inFace interest.name pitEntry
      (t.fib (hint.getD interest.name))
    afterReceiveInterest cfg t interest pitEntry inFace nexthops now wish

/-- `processIncomingInterest` from `InsertInRecord` on: an Interest that is not pending may be
served from the content store; of one that is, the previous nonce becomes dead. -/
def admitInterest (pkt : InterestPkt) (interest : FwInterest) (nonce : ℕ) (incoming : FaceInfo)
    (hint : Option Name) (pitEntry : ℕ) (now : Time) (wish : List Str) (csWish : List ℕ) :
    Thread × List OutPkt :=
  let inFace := pkt.incomingFaceID
  let inserted := (t.pitCS.entries pitEntry).insertInRecord interest nonce inFace pkt.pitToken now
  let t := t.onEntry pitEntry fun _ => inserted.1
  let inRecord := inserted.2.1
  match inserted.2.2 with
  | some prevNonce =>
    let t := { t with
      deadNonceList := t.deadNonceList.insert cfg.table interest.name prevNonce now }
    forwardInterest cfg t pkt interest incoming hint pitEntry inRecord now wish
  | none =>
    if cfg.table.csServe then
      let found := t.pitCS.findMatchingDataFromCS cfg.table interest now csWish
      let t := { t with pitCS := found.1 }
      match found.2.bind t.pitCS.csMap with
      | some csEntry =>
        let t := { t with pitCS := t.pitCS.updateExpirationTimer pitEntry now }
        sendData t csEntry.data none pitEntry inFace 0
      | none => forwardInterest cfg t pkt interest incoming hint pitEntry inRecord now wish
    else forwardInterest cfg t pkt interest incoming hint pitEntry inRecord now wish

/-- `processIncomingInterest`; `pick` is the entry that the pool would hand out. -/
def processIncomingInterest (pkt : InterestPkt) (now : Time) (pick : ℕ) (wish : List Str)
    (csWish : List ℕ) : Thread × List OutPkt :=
  match t.faces pkt.incomingFaceID, pkt.interest.nonce with
  | some incoming, some nonce =>
    let interest := { pkt.interest with hopLimit := pkt.interest.hopLimit.map (· - 1) }
    if pkt.interest.hopLimit = some 0 ∨ violatesLocalhost incoming interest.name
        ∨ t.deadNonceList.find cfg.table interest.name nonce then (t, [])
    else
      let hint := forwardingHintOf cfg.table interest.forwardingHint
      let inserted :=
        t.pitCS.insertInterest cfg.table interest nonce hint pkt.incomingFaceID pick
      let t := { t with pitCS := inserted.1 }
      let pitEntry := inserted.2.1
      if inserted.2.2 then
        (t, afterReceiveLoopedInterest cfg t interest pitEntry pkt.incomingFaceID)
      else admitInterest cfg t pkt interest nonce incoming hint pitEntry now wish csWish
  | _, _ => (t, [])

/-! ### Incoming NACKs and Data -/

/-- `processIncomingNack`.  The PIT token decides nothing: an entry whose token differs is found
again by its name. -/
def processIncomingNack (interest : FwInterest) (inFace : Face) (nackReason : ℕ) (now : Time) :
    Thread × List OutPkt :=
  if (t.faces inFace).isNone then (t, [])
  else
    match t.pitCS.findInterestExactMatch cfg.table interest with
    | none => (t, [])
    | some pitEntry => afterReceiveNack cfg t interest pitEntry inFace nackReason now

/-- An entry that is satisfied: its nonces become dead and its records are cleared.  The nonces
are those of `nonces`. -/
def satisfyEntry (name : Name) (pitEntry nonces : ℕ) (now : Time) : Thread :=
  let t := t.onEntry pitEntry fun entry => { entry with satisfied := true }
  let t := { t with deadNonceList :=
    t.deadNonceList.insertAll cfg.table name (t.pitCS.entries nonces).outRecords now }
  t.onEntry pitEntry fun entry => { entry with inRecords := [], outRecords := [] }

/-- Data that matches one entry goes to the strategy. -/
def satisfyOne (data : FwData) (inFace : Face) (pitEntry : ℕ) (now : Time) : Thread × List OutPkt :=
  let t := { t with pitCS := t.pitCS.updateExpirationTimer pitEntry now }
  let r := afterReceiveData cfg t data pitEntry inFace now
  (satisfyEntry cfg r.1 data.name pitEntry pitEntry now, r.2)

/-- Data that matches several entries goes to all their downstreams.  The nonces that become
dead are always those of the first entry. -/
def satisfyEach (data : FwData) (inFace : Face) (first : ℕ) (now : Time) (t : Thread) (pitEntry : ℕ)
    : Thread × List OutPkt :=
  let downstreams := (t.pitCS.entries pitEntry).inRecords.filter (·.face ≠ inFace)
  let t := { t with pitCS := t.pitCS.updateExpirationTimer pitEntry now }
  let t := satisfyEntry cfg t data.name pitEntry first now
  (t, downstreams.flatMap fun record =>
    outgoingData t data none record.face record.pitToken inFace)

/-- The PIT token of an incoming Data packet, if it is one of ours. -/
def incomingToken (pitToken : Bytes) : Option ℕ :=
  if pitToken.length = 6 then some (readBigEndian (pitToken.drop 2)) else none

/-- The content store takes the Data, if it admits any. -/
def admitData (data : FwData) (now : Time) : Thread :=
  if cfg.table.csAdmit then { t with pitCS := t.pitCS.insertData cfg.table data now } else t

/-- `processIncomingData`. -/
def processIncomingData (data : FwData) (inFace : Face) (pitToken : Bytes) (now : Time) :
    Thread × List OutPkt :=
  match t.faces inFace with
  | none => (t, [])
  | some incoming =>
    if violatesLocalhost incoming data.name then (t, [])
    else
      let t := admitData cfg t data now
      match t.pitCS.findInterestPrefixMatchByData cfg.table data.name
          (incomingToken pitToken) with
      | [] => (t, [])
      | [pitEntry] => satisfyOne cfg t data inFace pitEntry now
      | first :: rest => Thread.each (satisfyEach cfg data inFace first now) (first :: rest) t

/-! ### Expiry -/

/-- `finalizeInterest`, and then `RemoveInterest`. -/
def expireEntry (pitEntry : ℕ) (now : Time) : Thread :=
  let entry := t.pitCS.entries pitEntry
  { t with
    deadNonceList := t.deadNonceList.insertAll cfg.table entry.encname entry.outRecords now
    pitCS := t.pitCS.removeInterest pitEntry }

/-- The loop of `Update`; the queue has `fuel` items at most. -/
def expireDue (cfg : ThreadConfig) (now : Time) : ℕ → Thread → Thread
  | 0, t => t
  | fuel + 1, t =>
    match t.pitCS.popExpired now with
    | none => t
    | some popped =>
      expireDue cfg now fuel (expireEntry cfg { t with pitCS := popped.2 } popped.1 now)

/-- `Update` of the PIT. -/
def updatePit (now : Time) : Thread :=
  expireDue cfg now t.pitCS.pitExpiryQueue.length t

/-! ### Runs of a thread -/

/-- What happens at a thread: the cases of `Run`, the steps of the other threads and of the rate
controller, and changes of the face table, the FIB and the strategy choices. -/
inductive ThreadEvent where
  | interest (pkt : InterestPkt) (now : Time) (pick : ℕ) (wish : List Str) (csWish : List ℕ)
  | data (data : FwData) (inFace : Face) (pitToken : Bytes) (now : Time)
  | nack (interest : FwInterest) (inFace : Face) (nackReason : ℕ) (now : Time)
  | deadNonces (now : Time)
  | update (now : Time)
  | tick (now : Time) (wish : List Str)
  | node (e : NodeEvent)
  | faceTable (faces : Face → Option FaceInfo)
  | fib (fib : Name → List FibNextHopEntry)
  | strategies (strategies : Name → Strategy)

/-- The thread that takes a step of the node. -/
def NodeEvent.thread : NodeEvent → Option ℕ
  | .dtInterest threadID _ _ _ _ _ _ => some threadID
  | .tick threadID _ _ => some threadID
  | _ => none

/-- What `OnTick` asks to be sent. -/
def drained (now : Time) (wish : List Str) : List NodeAction :=
  (nodeHandle cfg.node t.node (.tick cfg.threadID now wish)).2

/-- What a thread does on an event. -/
def threadHandle : ThreadEvent → Thread × List OutPkt
  | .interest pkt now pick wish csWish => processIncomingInterest cfg t pkt now pick wish csWish
  | .data data inFace pitToken now => processIncomingData cfg t data inFace pitToken now
  | .nack interest inFace nackReason now =>
    processIncomingNack cfg t interest inFace nackReason now
  | .deadNonces now => ({ t with deadNonceList := t.deadNonceList.removeExpiredEntries now }, [])
  | .update now => (updatePit cfg t now, [])
  | .tick now wish => t.handle cfg (.tick cfg.threadID now wish) (sendQueued cfg now)
  | .node e =>
    if e.thread = some cfg.threadID then (t, [])
    else ({ t with node := nodeStep cfg.node t.node e }, [])
  | .faceTable faces => ({ t with faces := faces }, [])
  | .fib fib => ({ t with fib := fib }, [])
  | .strategies strategies => ({ t with strategies := strategies }, [])

/-- The thread after an event. -/
def threadStep (e : ThreadEvent) : Thread :=
  (threadHandle cfg t e).1

/-- The thread after a sequence of events. -/
def threadRun (es : List ThreadEvent) : Thread :=
  Steps.run (threadStep cfg) .new es

/-! ### A small thread -/

/-- A thread of a consumer node without a content store. -/
def smallThread : ThreadConfig where
  node := plainNode
  table :=
    { componentHash := fun s => s.foldl (fun n c => 256 * n + c.toNat) 0
      nameHash := fun name => name.flatten.foldl (fun n c => 256 * n + c.toNat) 0
      csAdmit := false
      csServe := false
      csCapacity := 0
      deadNonceListLifetime := 6000000000
      producerRegions := [] }
  threadID := 0
  discoveryPayload := fun _ => .malformed

end Mars
