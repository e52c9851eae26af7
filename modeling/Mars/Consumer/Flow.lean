import Mars.Consumer.Names
import Mars.Consumer.ShadowLoss
import Mathlib.Data.Rat.Floor

/-!
One flow of the consumer (`consumer.go`): the data behind `FlowContext.mu` and the critical
sections on it.

A flow first discovers paths (`pd`) and then transfers `maxPackets` Data packets (`dt`).  Every
Interest that was sent and not yet answered has an entry in `pendingSends`; a lost one of the
transfer is queued for retransmission.

* `ConsumerConfig`: the parameters of a run of the consumer;
* `FlowContext`, `NewFlowContext`, `initDTState`: the state of a flow;
* `recordInterestSend`, `queueRetransmission`, `popRetransmission`, `onNack`, `onTimeout`,
  `onData` and the calls of the shadow loss detector: the critical sections;
* `FlowOp`, `flowHandle`, `flowRun`: the sections in any order, and what they report.

The estimator of the bandwidth and the periodic rate control are not modelled: the new rate is a
parameter of `setRate`.
-/

namespace Mars

inductive TransmissionMode where
  | pd
  | dt
  deriving DecidableEq, Repr

/-- The parameters of a run of the consumer: the node, the producers it asks, the mode it starts
in, `MAX_PACKETS` and `DT_INIT_RATE`.  `sqrt` stands for `math.Sqrt`. -/
structure ConsumerConfig where
  nodeName : Str
  firstProducer : ℕ
  flowCount : ℕ
  flowCount_pos : 0 < flowCount
  initialMode : TransmissionMode
  maxPackets : ℕ
  maxPackets_pos : 0 < maxPackets
  maxPackets_lt : maxPackets < 2 ^ 63
  dtInitRate : ℚ
  sqrt : ℚ → ℚ

/-- The first component of the names of flow `i`. -/
def ConsumerConfig.flowPrefix (cfg : ConsumerConfig) (i : ℕ) : Str :=
  producerPrefix (cfg.firstProducer + i)

/-! ### Constants -/

def minRto : ℚ := 240
def maxRto : ℚ := 3500
def rtoJitterRatio : ℚ := 1 / 10
def pdInitRate : ℚ := 1000
def pdInitRto : ℚ := 200
def pdRehearsalBudget : ℕ := 20
def dtInflightInitialRttMultiplier : ℚ := 2
def dtInflightMinPackets : ℕ := 16
def dtInflightMaxPackets : ℕ := 512
def rttWindowDuration : Time := 600 * millisecond
def rtoOuterMultiplier : ℚ := 1

/-! ### Payloads -/

/-- The size of a serialised `DataPacket`: two meta fields and 750 values of eight bytes. -/
def dataPacketSize : ℕ := 2 * 8 + 750 * 8

/-- `DeserializeData` succeeds on payloads of one size; the values are not used here. -/
def deserializeData (payload : List ℕ) : Bool := payload.length = dataPacketSize

structure DiscoveryPacket where
  tierConverged : Bool
  nodeConverged : Bool
  deriving DecidableEq, Repr

/-- `DeserializeDiscovery`. -/
def deserializeDiscovery (payload : List ℕ) : Option DiscoveryPacket :=
  match payload with
  | [tier, node] => some ⟨tier ≠ 0, node ≠ 0⟩
  | _ => none

/-! ### The state -/

structure PendingSend where
  sendTime : Time
  retransmitted : Bool
  deriving DecidableEq, Repr

structure RTTSample where
  timestamp : Time
  rtt : ℚ
  deriving DecidableEq, Repr

/-- `FlowContext`; `doneCloses` counts the calls of `close(doneCh)`. -/
structure FlowContext where
  flowPrefix : Str
  baseName : Name
  mode : TransmissionMode
  currentRate : ℚ
  rto : ℚ
  pendingSends : FinMap Name PendingSend := ∅
  totalBytes : ℕ := 0
  pktsReceivedTotal : ℕ := 0
  receivedSeqs : Finset ℤ := ∅
  startTime : Time
  endTime : Time
  p95Time : Time := zeroTime
  p99Time : Time := zeroTime
  p100Time : Time := zeroTime
  isFinished : Bool := false
  doneCloses : ℕ := 0
  currentTier : ℕ := 0
  isPaused : Bool := false
  stopPD : Bool := false
  outstandingPD : ℕ := 0
  rehearsalCount : ℕ := 0
  hasRehearsed : Bool := false
  pdFinished : Bool := false
  rttHistory : List RTTSample := []
  srtt : ℚ := 0
  rttVar : ℚ := 0
  timeoutEvents : ℕ := 0
  congestionWindow : ℚ := 0
  maxInflight : ℕ := 0
  pktsCalibrated : ℕ := 0
  initialRTTSum : ℚ := 0
  baseRTT : ℚ := 0
  retxQueue : List ℤ := []
  retxHead : ℕ := 0
  retxQueued : Finset ℤ := ∅
  shadowLoss : ShadowLossDetector := {}

/-- `clampFloat`: a bound of `0` above is no bound. -/
def clampFloat (value minimum maximum : ℚ) : ℚ :=
  if value < minimum then minimum
  else if 0 < maximum ∧ maximum < value then maximum else value

/-- `initialDTInflightWindow`. -/
def initialDTInflightWindow (cfg : ConsumerConfig) (rate rttMs : ℚ) : ℚ :=
  let rate := if rate ≤ 0 then cfg.dtInitRate else rate
  let rttMs := if rttMs ≤ 0 then minRto / 4 else rttMs
  clampFloat (rate * (rttMs / 1000) * dtInflightInitialRttMultiplier) dtInflightMinPackets
    dtInflightMaxPackets

/-- `consumerMilestoneTarget`. -/
def consumerMilestoneTarget (totalPackets : ℕ) (ratio : ℚ) : ℕ :=
  if totalPackets = 0 then 0 else min (max ⌈(totalPackets : ℚ) * ratio⌉.toNat 1) totalPackets

/-- `applyRTOOuterMultiplier`. -/
def applyRTOOuterMultiplier (calculatedRTO multiplier : ℚ) : ℚ :=
  min (max (multiplier * calculatedRTO) minRto) maxRto

namespace FlowContext

variable (cfg : ConsumerConfig) (f : FlowContext)

/-- `initDTState`. -/
def initDTState (now : Time) : FlowContext :=
  { f with
    currentRate := cfg.dtInitRate
    rto := minRto * 2
    startTime := now
    endTime := now
    totalBytes := 0
    pktsReceivedTotal := 0
    p95Time := zeroTime
    p99Time := zeroTime
    p100Time := zeroTime
    isFinished := false
    pendingSends := ∅
    receivedSeqs := ∅
    retxQueue := []
    retxHead := 0
    retxQueued := ∅
    rttHistory := []
    timeoutEvents := 0
    congestionWindow := initialDTInflightWindow cfg cfg.dtInitRate 0
    maxInflight := 0
    pktsCalibrated := 0
    initialRTTSum := 0
    baseRTT := 0
    srtt := 0
    rttVar := 0
    shadowLoss := ShadowLossDetector.reset
    baseName := dtBaseName f.flowPrefix cfg.nodeName }

/-- `updatePDBaseName`. -/
def updatePDBaseName (tier : ℕ) : FlowContext :=
  { f with baseName := pdBaseName f.flowPrefix cfg.nodeName tier }

/-- `interestNameForSeq`. -/
def interestNameForSeq (seq : ℤ) : Name := seqName f.baseName seq

/-! ### Sending -/

/-- `GetRTOIfPending`. -/
def getRTOIfPending (name : Name) (seq : ℤ) : Option ℚ :=
  if name ∉ f.pendingSends then none
  else if f.mode = .dt ∧ (f.isFinished ∨ seq ∈ f.receivedSeqs) then none
  else some f.rto

/-- `dtInflightLimitLocked`. -/
def dtInflightLimit : ℤ :=
  let window := if f.congestionWindow ≤ 0 then initialDTInflightWindow cfg f.currentRate f.baseRTT
    else f.congestionWindow
  min (max ⌈window⌉ dtInflightMinPackets) dtInflightMaxPackets

/-- `CanSendNewDT`. -/
def canSendNewDT : Bool :=
  f.mode = .dt ∧ ¬ f.isFinished ∧ (f.pendingSends.size : ℤ) < f.dtInflightLimit cfg

/-- The entry that a send leaves in `pendingSends`. -/
def sentEntry (name : Name) (now : Time) (isRetransmission : Bool) : PendingSend :=
  match f.pendingSends.lookup name with
  | none => ⟨now, isRetransmission⟩
  | some entry => if isRetransmission then { entry with retransmitted := true } else ⟨now, false⟩

/-- `RecordInterestSend`. -/
def recordInterestSend (name : Name) (seq : ℤ) (now : Time) (isRetransmission : Bool) :
    FlowContext × TransmissionMode × Bool :=
  if f.mode = .dt ∧ (f.isFinished ∨ seq ∈ f.receivedSeqs) then (f, f.mode, false)
  else
    let f := { f with
      pendingSends := f.pendingSends.insert name (f.sentEntry name now isRetransmission) }
    match f.mode with
    | .dt =>
      ({ f with
          shadowLoss := if isRetransmission then f.shadowLoss.recordRecoverySend seq
            else f.shadowLoss.recordFreshSend seq now
          maxInflight := max f.maxInflight f.pendingSends.size }, f.mode, true)
    | .pd =>
      ({ f with outstandingPD := f.outstandingPD + if isRetransmission then 0 else 1 },
        f.mode, true)

/-! ### Retransmissions -/

/-- `queueRetransmissionLocked`. -/
def queueRetransmissionLocked (seq : ℤ) : FlowContext × Bool :=
  if f.mode ≠ .dt ∨ f.isFinished ∨ seq ∈ f.receivedSeqs ∨ seq ∈ f.retxQueued then (f, false)
  else if f.interestNameForSeq seq ∉ f.pendingSends then (f, false)
  else
    ({ f with retxQueued := insert seq f.retxQueued, retxQueue := f.retxQueue ++ [seq] }, true)

/-- `QueueRetransmission`. -/
def queueRetransmission (seq : ℤ) : FlowContext × Bool :=
  if seq ≤ 0 then (f, false) else f.queueRetransmissionLocked seq

/-- `recordShadowFastRepairOutcome`. -/
def recordShadowFastRepairOutcome (candidate : ShadowFastRepairCandidate)
    (outcome : ShadowFastRepairQueueOutcome) : FlowContext :=
  { f with shadowLoss := f.shadowLoss.recordFastRepairQueueOutcome candidate outcome }

/-- Whether the attempt of a candidate is still the one that the detector watches. -/
def repairCurrent (candidate : ShadowFastRepairCandidate) : Bool :=
  f.mode = .dt ∧ ¬ f.isFinished ∧ candidate.sequence ∉ f.receivedSeqs
    ∧ (f.shadowLoss.pending.lookup candidate.sequence).any
        (fun pending => pending.generation = candidate.generation)

/-- `queueShadowFastRepair`. -/
def queueShadowFastRepair (candidate : ShadowFastRepairCandidate) :
    FlowContext × ShadowFastRepairQueueOutcome :=
  if !f.repairCurrent candidate then (f.recordShadowFastRepairOutcome candidate .stale, .stale)
  else if candidate.sequence ∈ f.retxQueued then
    (f.recordShadowFastRepairOutcome candidate .alreadyQueued, .alreadyQueued)
  else
    match f.queueRetransmissionLocked candidate.sequence with
    | (f', true) => (f'.recordShadowFastRepairOutcome candidate .queued, .queued)
    | (f', false) => (f'.recordShadowFastRepairOutcome candidate .stale, .stale)

/-- `compactRetransmissionQueueLocked`. -/
def compactRetransmissionQueue : FlowContext :=
  if f.retxHead = 0 then f
  else if f.retxHead < f.retxQueue.length / 2 ∧ f.retxHead < 1024 then f
  else { f with retxQueue := f.retxQueue.drop f.retxHead, retxHead := 0 }

/-- The loop of `PopRetransmission`, for as many turns as entries remain. -/
def popRetransmissionLoop : ℕ → FlowContext → FlowContext × Option ℤ
  | 0, f => ({ f with retxQueue := [], retxHead := 0 }, none)
  | turns + 1, f =>
    let seq := f.retxQueue.getD f.retxHead 0
    let f := { f with retxQueue := f.retxQueue.set f.retxHead 0, retxHead := f.retxHead + 1 }
    if seq ∉ f.retxQueued then popRetransmissionLoop turns f
    else
      let f := { f with retxQueued := f.retxQueued.erase seq }
      if f.mode ≠ .dt ∨ f.isFinished then popRetransmissionLoop turns f
      else if f.interestNameForSeq seq ∉ f.pendingSends then popRetransmissionLoop turns f
      else (f.compactRetransmissionQueue, some seq)

/-- `PopRetransmission`. -/
def popRetransmission : FlowContext × Option ℤ :=
  popRetransmissionLoop (f.retxQueue.length - f.retxHead) f

/-- `HasQueuedRetransmission`. -/
def hasQueuedRetransmission : Bool := f.retxQueued ≠ ∅

/-- `clearQueuedRetransmissionLocked`. -/
def clearQueuedRetransmission (seq : ℤ) : FlowContext :=
  if seq ≤ 0 then f else { f with retxQueued := f.retxQueued.erase seq }

/-- The attempt that `installShadowAttemptAndClearQueued` records during data transmission. -/
def installShadowAttempt (seq : ℤ) (generation : ℕ) (isFastRepair : Bool) : ShadowLossDetector :=
  let shadowLoss := f.shadowLoss.recordAttempt seq generation
  if isFastRepair then shadowLoss.recordFastRepairSend seq else shadowLoss

/-- `installShadowAttemptAndClearQueued`. -/
def installShadowAttemptAndClearQueued (seq : ℤ) (generation : ℕ) (isFastRepair : Bool) :
    FlowContext :=
  ({ f with shadowLoss := if f.mode = .dt then f.installShadowAttempt seq generation isFastRepair
      else f.shadowLoss } : FlowContext).clearQueuedRetransmission seq

/-- `RecordShadowRTO`. -/
def recordShadowRTO (seq : ℤ) (expiredAt : Time) : FlowContext :=
  { f with shadowLoss := if f.mode = .dt then f.shadowLoss.recordRTO seq expiredAt
      else f.shadowLoss }

/-- `OnDTRTO`. -/
def onDTRTO : FlowContext := { f with timeoutEvents := f.timeoutEvents + 1 }

/-- The first part of `runShadowLossScan`, which holds the lock: the candidates to queue. -/
def runShadowLossScan (now : Time) : FlowContext × List ShadowFastRepairCandidate :=
  if f.mode ≠ .dt ∨ f.isFinished then (f, [])
  else
    let (shadowLoss, candidates) := f.shadowLoss.scanIfDue now
    ({ f with shadowLoss := shadowLoss }, candidates)

/-! ### Answers -/

/-- `checkPdState`. -/
def checkPdState : FlowContext :=
  if f.stopPD ∧ f.outstandingPD = 0 then { f with pdFinished := true }
  else if f.isPaused ∧ f.outstandingPD = 0 then
    ({ f with currentTier := f.currentTier + 1, isPaused := false } : FlowContext).updatePDBaseName
      cfg (f.currentTier + 1)
  else f

/-- One Interest of path discovery is no longer outstanding. -/
def completePD (name : Name) : FlowContext :=
  { f with pendingSends := f.pendingSends.erase name, outstandingPD := f.outstandingPD - 1 }

/-- `OnNack`. -/
def onNack (name : Name) : FlowContext :=
  match f.mode with
  | .pd => f.completePD name
  | .dt => f

/-- `OnTimeout`. -/
def onTimeout (name : Name) : FlowContext :=
  match f.mode with
  | .pd => (f.completePD name).checkPdState cfg
  | .dt => { f with pendingSends := f.pendingSends.erase name }

/-- The flags that a `DiscoveryPacket` sets or clears. -/
def observeDiscovery (packet : DiscoveryPacket) : FlowContext :=
  let f :=
    if packet.nodeConverged ∧ ¬ f.stopPD then { f with stopPD := true }
    else if packet.tierConverged ∧ ¬ f.isPaused then { f with isPaused := true }
    else f
  if f.isPaused ∧ ¬ packet.tierConverged then
    let f := { f with isPaused := false }
    if f.hasRehearsed then f
    else { f with hasRehearsed := true, rehearsalCount := pdRehearsalBudget }
  else f

/-- `OnData` during path discovery. -/
def onDataPD (payload : List ℕ) (dataName : Name) : FlowContext × Bool :=
  let f := f.completePD dataName
  match deserializeDiscovery payload with
  | none => (f, false)
  | some packet => ((f.observeDiscovery packet).checkPdState cfg, true)

/-- The samples of the last 600 ms, from the first one that is recent enough. -/
def recentSamples (receiveTime : Time) (samples : List RTTSample) : List RTTSample :=
  match samples.findIdx? fun s => receiveTime - s.timestamp ≤ rttWindowDuration with
  | some i => samples.drop i
  | none => samples

/-- `updateRTT`. -/
def updateRTT (receiveTime : Time) (rttVal : ℚ) : FlowContext :=
  let history := recentSamples receiveTime (f.rttHistory ++ [⟨receiveTime, rttVal⟩])
  let count : ℚ := history.length
  let mean := if history.length < 2 then rttVal else (history.map RTTSample.rtt).sum / count
  let variance := if history.length < 2 then 0
    else (history.map fun s => (s.rtt - mean) * (s.rtt - mean)).sum / count
  let calculatedRTO := if history.length < 2 then max minRto (2 * rttVal)
    else mean + 4 * cfg.sqrt variance
  { f with
    rttHistory := history
    srtt := mean
    rttVar := variance
    rto := applyRTOOuterMultiplier calculatedRTO rtoOuterMultiplier }

/-- The part of `updateRateControl` that calibrates the congestion window on the first five
samples. -/
def updateRateControl (rttVal : ℚ) (rttValid : Bool) : FlowContext :=
  if 5 ≤ f.pktsCalibrated ∨ !rttValid then f
  else
    let f := { f with
      initialRTTSum := f.initialRTTSum + rttVal
      pktsCalibrated := f.pktsCalibrated + 1 }
    if f.pktsCalibrated = 5 then
      let baseRTT := f.initialRTTSum / 5
      { f with
        baseRTT := baseRTT
        congestionWindow := max f.congestionWindow
          (initialDTInflightWindow cfg f.currentRate baseRTT) }
    else f

/-- `growCongestionWindowOnAckLocked`. -/
def growCongestionWindowOnAck : FlowContext :=
  let window := if f.congestionWindow ≤ 0 then initialDTInflightWindow cfg f.currentRate f.baseRTT
    else f.congestionWindow
  { f with congestionWindow :=
      if (dtInflightMaxPackets : ℚ) ≤ window then window
      else min (window + 1 / max window 1) dtInflightMaxPackets }

/-- `OnData` records a Data packet that answers `seqNum` for the first time. -/
def completeDT (seqNum : ℤ) (bytes : ℕ) (dataName : Name) (receiveTime : Time) : FlowContext :=
  let total := f.pktsReceivedTotal + 1
  ({ f with
    shadowLoss := f.shadowLoss.recordData seqNum receiveTime
    pendingSends := f.pendingSends.erase dataName
    endTime := receiveTime
    receivedSeqs := insert seqNum f.receivedSeqs
    totalBytes := f.totalBytes + bytes
    pktsReceivedTotal := total
    p95Time := if f.p95Time = zeroTime ∧ consumerMilestoneTarget cfg.maxPackets (95 / 100) ≤ total
      then receiveTime else f.p95Time
    p99Time := if f.p99Time = zeroTime ∧ consumerMilestoneTarget cfg.maxPackets (99 / 100) ≤ total
      then receiveTime else f.p99Time
    p100Time := if f.p100Time = zeroTime ∧ cfg.maxPackets ≤ total then receiveTime else f.p100Time
    isFinished := decide (cfg.maxPackets ≤ total) || f.isFinished
    doneCloses := f.doneCloses + if cfg.maxPackets ≤ total then 1 else 0 } :
    FlowContext).clearQueuedRetransmission seqNum

/-- The measurements that `OnData` takes from an answer; only an answer to a single Interest is a
sample of the round trip time. -/
def measureDT (pending : PendingSend) (receiveTime : Time) : FlowContext :=
  let rttVal : ℚ := (receiveTime - pending.sendTime : ℤ) / 1000000
  let f := if pending.retransmitted then f else f.updateRTT cfg receiveTime rttVal
  (f.updateRateControl cfg rttVal (!pending.retransmitted)).growCongestionWindowOnAck cfg

/-- `OnData` during data transmission. -/
def onDataDT (pending : PendingSend) (payload : List ℕ) (dataName : Name) (receiveTime : Time) :
    FlowContext × Bool :=
  let seqNum := extractSeqNum dataName
  if seqNum ∈ f.receivedSeqs then
    (({ f with pendingSends := f.pendingSends.erase dataName } :
      FlowContext).clearQueuedRetransmission seqNum, false)
  else if seqNum ≤ 0 then (f, false)
  else if !deserializeData payload then (f, false)
  else
    ((f.completeDT cfg seqNum payload.length dataName receiveTime).measureDT cfg pending
      receiveTime, true)

/-- `OnData`. -/
def onData (payload : List ℕ) (dataName : Name) (receiveTime : Time) : FlowContext × Bool :=
  match f.pendingSends.lookup dataName with
  | none => (f, false)
  | some pending =>
    if f.isFinished then ({ f with pendingSends := f.pendingSends.erase dataName }, false)
    else
      match f.mode with
      | .pd => f.onDataPD cfg payload dataName
      | .dt => f.onDataDT cfg pending payload dataName receiveTime

/-! ### The other goroutines -/

/-- The pause check of `runFlow` during path discovery: whether this tick may send. -/
def pdTick : FlowContext × Bool :=
  if f.stopPD then (f, false)
  else if 0 < f.rehearsalCount then
    ({ f with rehearsalCount := f.rehearsalCount - 1 }, true)
  else (f, !f.isPaused)

/-- `runPeriodicRateControl` sets a new rate, once the flow is calibrated. -/
def setRate (rate : ℚ) : FlowContext :=
  if f.mode = .dt ∧ 5 ≤ f.pktsCalibrated ∧ ¬ f.isFinished then { f with currentRate := rate } else f

/-- The switch of `startDataTransmission`. -/
def switchToDT (now : Time) : FlowContext :=
  ({ f with mode := .dt } : FlowContext).initDTState cfg now

end FlowContext

/-- `NewFlowContext` for flow `i`. -/
def newFlowContext (cfg : ConsumerConfig) (i : ℕ) (now : Time) : FlowContext :=
  match cfg.initialMode with
  | .pd =>
    { flowPrefix := cfg.flowPrefix i
      baseName := pdBaseName (cfg.flowPrefix i) cfg.nodeName 0
      mode := .pd
      currentRate := pdInitRate
      rto := pdInitRto
      startTime := now
      endTime := now }
  | .dt =>
    ({ flowPrefix := cfg.flowPrefix i
       baseName := []
       mode := .dt
       currentRate := 0
       rto := 0
       startTime := now
       endTime := now } : FlowContext).initDTState cfg now

/-- A consumer of one producer, with two packets to transfer. -/
def soleConsumer (mode : TransmissionMode) : ConsumerConfig where
  nodeName := "con0".toList
  firstProducer := 0
  flowCount := 1
  flowCount_pos := Nat.one_pos
  initialMode := mode
  maxPackets := 2
  maxPackets_pos := by decide
  maxPackets_lt := by decide
  dtInitRate := 1000
  sqrt := id

end Mars
