import Mars.Basic
import Mars.Lib.Steps
import Mathlib.Algebra.BigOperators.Group.List.Basic
import Mathlib.Tactic.Linarith

/-!
The bandwidth estimates of the forwarder and of the consumer.

The throughput is measured with every Data packet, and observed every third of a control period.
Three observations make the first estimate; then an estimate moves towards the latest one, or
towards the average of the last three if these rise.

* `classifyBwTrend`, `applyBandwidthEstimate`, `recordObservation`: what the estimators share;
  `updateDtFaceBandwidthEstimate`, `updateQsfBandwidthEstimate`, `updateDelayBandwidthEstimate`;
* `throughput_high_raises_iff`: an update for a throughput above the estimate lowers it iff the last
  three observations rise and their average is below it.
-/

namespace Mars.Bandwidth

/-- `lastUpdateRule`; the pressure is that of a queue or of the delay. -/
inductive BwRule
  | noSampleRetain | insufficientSampleRetain | insufficientSampleSkip | cadenceWait
  | bootstrapCollecting | bootstrapReady | retain
  | throughputHighMonotonic | throughputHighFluctuating | pressureMonotonic | pressureFluctuating
  deriving DecidableEq, Repr

/-- `dtBwTrend`, `bwTrend`. -/
inductive BwTrend
  | unknown | increasing | decreasing | fluctuating
  deriving DecidableEq, Repr

/-- `dtFaceBandwidthState`, or the fields of a flow for its estimate; of the packets in the window
the times are kept. -/
structure BwState where
  estimated : ℚ
  samples : List Time := []
  observations : List ℚ := []
  lastObsTime : Option Time := none
  bootstrapReady : Bool := false
  deriving DecidableEq

/-- A Data packet, with the control period and the signals of the queues or of the delay. -/
structure BwArrival where
  now : Time
  period : Time
  queuePressureQsf : ℚ := 0
  baseRTT : ℚ := 0
  avgWinRTT : ℚ := 0

/-- `dtThroughputWindowDur`, `THROUGHPUT_WINDOW_DUR`. -/
def throughputWindowDur : Time := 20000000

/-- `dtMaxSamplesPerFace`. -/
@[irreducible] def dtMaxSamplesPerFace : ℕ := 4000

/-- `dtBwSampleMin`, `consumerBwSampleMin`. -/
def bwSampleMin : ℕ := 2

/-- `dtBwObsLimit`, `consumerBwObsLimit`. -/
def bwObsLimit : ℕ := 3

/-- `dtBwAlphaUp`, `consumerBwAlphaUp`. -/
def bwAlphaUp : ℚ := 1 / 4

/-- `dtBwAlphaDown`, `consumerBwAlphaDown`. -/
def bwAlphaDown : ℚ := 1 / 4

/-- `dtBwAlphaSmall`, `consumerBwAlphaSmall`. -/
def bwAlphaSmall : ℚ := 1 / 10

/-- `dtAverageFloat64`, `averageFloat64`. -/
def average (values : List ℚ) : ℚ := if values = [] then 0 else values.sum / values.length

/-- `dtClassifyBwTrend`, `consumerBwTrend`. -/
def classifyBwTrend (observations : List ℚ) : BwTrend :=
  let steps := observations.zip observations.tail
  if observations.length < 2 then .unknown
  else if steps.all fun step => step.1 < step.2 then .increasing
  else if steps.all fun step => step.2 < step.1 then .decreasing
  else .fluctuating

/-- `dtBwObservationSpacing`, `consumerBwObservationSpacing`. -/
def bwObservationSpacing (period : Time) : Time :=
  let spacing := (if period ≤ 0 then 20000000 else period).tdiv 3
  if spacing ≤ 0 then 1000000 else spacing

variable (st : BwState) (a : BwArrival) (now : Time) (measuredPPS : ℚ) (pressure : Bool)

/-- `applyDtFaceBandwidthEstimateLocked`, which ends the estimators of the consumer as well. -/
def applyBandwidthEstimate : BwState × BwRule :=
  let prevBW := st.estimated
  let latest := st.observations.getLastD 0
  let trend := classifyBwTrend st.observations
  let towards (candidate alpha : ℚ) : BwState :=
    { st with estimated := prevBW + alpha * (candidate - prevBW) }
  if prevBW < measuredPPS ∧ trend = .increasing then
    (towards (average st.observations) bwAlphaUp, .throughputHighMonotonic)
  else if prevBW < measuredPPS then (towards latest bwAlphaSmall, .throughputHighFluctuating)
  else if pressure ∧ trend = .decreasing then (towards latest bwAlphaDown, .pressureMonotonic)
  else if pressure then (towards latest bwAlphaSmall, .pressureFluctuating)
  else (st, .retain)

/-- An observation is recorded, and the estimate is made or moved. -/
def recordObservation : BwState × BwRule :=
  let observations := st.observations ++ [measuredPPS]
  let st :=
    { st with
      lastObsTime := some now
      observations := observations.drop (observations.length - bwObsLimit) }
  if st.bootstrapReady then applyBandwidthEstimate st measuredPPS pressure
  else if st.observations.length < bwObsLimit then (st, .bootstrapCollecting)
  else ({ st with estimated := average st.observations, bootstrapReady := true }, .bootstrapReady)

/-- What the estimators share; with two samples the measured throughput is positive. -/
def updateEstimate : BwState × BwRule :=
  let sampleCount := st.samples.length
  if sampleCount < bwSampleMin then
    (st, if sampleCount = 0 then .noSampleRetain
      else if 0 < st.estimated then .insufficientSampleRetain else .insufficientSampleSkip)
  else if st.lastObsTime.any fun last => a.now - last < bwObservationSpacing a.period then
    (st, .cadenceWait)
  else recordObservation st a.now (sampleCount / (1 / 50)) pressure

/-- The sample of a packet is added, and those before the window are dropped. -/
def BwState.addSample : BwState :=
  { st with samples := (st.samples ++ [now]).dropWhile (· < now - throughputWindowDur) }

/-- `noteDtFaceBandwidthSample`. -/
def noteDtFaceBandwidthSample : BwState :=
  let samples := (st.addSample now).samples
  { st with samples := samples.drop (samples.length - dtMaxSamplesPerFace) }

/-- `updateDtFaceBandwidthEstimate`, after the sample of the packet. -/
def updateDtFaceBandwidthEstimate : BwState × Option BwRule :=
  (updateEstimate (noteDtFaceBandwidthSample st a.now) a (1 * (1 / 2) < a.queuePressureQsf)).map id
    some

/-- The end of `updateRateControl` with `updateQsfBandwidthEstimate`; there is no period before the
flow is calibrated. -/
def updateQsfBandwidthEstimate : BwState × Option BwRule :=
  if a.period ≤ 0 then (st.addSample a.now, none)
  else (updateEstimate (st.addSample a.now) a (1 * (1 / 2) < a.queuePressureQsf)).map id some

/-- The end of `updateRateControl` with `updateDelayBandwidthEstimate`. -/
def updateDelayBandwidthEstimate : BwState × Option BwRule :=
  if a.period ≤ 0 then (st.addSample a.now, none)
  else (updateEstimate (st.addSample a.now) a
    (0 < a.baseRTT ∧ 6 * a.baseRTT ≤ a.avgWinRTT)).map id some

/-- The estimators, with the estimate that they start with. -/
def estimators : List ((BwState → BwArrival → BwState × Option BwRule) × ℚ) :=
  [(updateDtFaceBandwidthEstimate, 0), (updateQsfBandwidthEstimate, 3000),
    (updateDelayBandwidthEstimate, 3000)]

/-! ### A throughput above the estimate -/

/-- What the two rules for a throughput above the estimate do to it. -/
def Raises (prevBW : ℚ) (st : BwState) : BwRule → Prop
  | .throughputHighMonotonic => prevBW ≤ st.estimated ↔ prevBW ≤ average st.observations
  | .throughputHighFluctuating => prevBW < st.estimated
  | _ => True

lemma raises_recordObservation :
    Raises st.estimated (recordObservation st now measuredPPS pressure).1
      (recordObservation st now measuredPPS pressure).2 := by
  have hkept : (st.observations ++ [measuredPPS]).length - bwObsLimit ≤ st.observations.length := by
    rw [List.length_append, List.length_singleton, bwObsLimit]
    omega
  rw [recordObservation, List.drop_append_of_le_length hkept]
  split_ifs
  · rw [applyBandwidthEstimate]
    dsimp only
    rw [List.getLastD_concat]
    split_ifs with hup hhigh
    · simp only [Raises, bwAlphaUp]
      constructor <;> intro h <;> linarith
    · simp only [Raises, bwAlphaSmall]
      linarith
    all_goals trivial
  all_goals trivial

lemma raises_updateEstimate :
    Raises st.estimated (updateEstimate st a pressure).1 (updateEstimate st a pressure).2 := by
  rw [updateEstimate]
  split_ifs
  all_goals first | trivial | exact raises_recordObservation ..

/-- **An update for a throughput above the estimate** raises the estimate, unless the last
observations rise and their average is below it. -/
theorem throughput_high_raises_iff (update : BwState → BwArrival → BwState × Option BwRule)
    (hupdate : update ∈ estimators.map Prod.fst) (st : BwState) (a : BwArrival) :
    ∀ rule ∈ (update st a).2, Raises st.estimated (update st a).1 rule := by
  intro rule hrule
  simp only [estimators, List.map_cons, List.map_nil, List.mem_cons, List.not_mem_nil,
    or_false] at hupdate
  rcases hupdate with rfl | rfl | rfl
  · obtain rfl := Option.some.inj hrule
    exact raises_updateEstimate (noteDtFaceBandwidthSample st a.now) a _
  all_goals
    simp only [updateQsfBandwidthEstimate, updateDelayBandwidthEstimate] at hrule ⊢
    split_ifs at hrule ⊢
    · cases hrule
    · obtain rfl := Option.some.inj hrule
      exact raises_updateEstimate (st.addSample a.now) a _

/-- A burst of packets of which the first five calibrate the flow, and after a pause a few packets
and another burst. -/
def twoBursts : List BwArrival :=
  List.replicate 5 ⟨0, 0, 0, 0, 0⟩ ++ (List.replicate 15 0
    ++ [7000000, 14000000, 40000000, 40000000, 47000000] ++ List.replicate 15 48000000).map
      (⟨·, 20000000, 0, 0, 0⟩)

theorem throughput_high_raises_iff_bursts :
    let st := Steps.run (fun st a => (updateQsfBandwidthEstimate st a).1)
      ⟨3000, [], [], none, false⟩ twoBursts
    ∀ rule ∈ (updateQsfBandwidthEstimate st ⟨54000000, 20000000, 0, 0, 0⟩).2,
      Raises st.estimated (updateQsfBandwidthEstimate st ⟨54000000, 20000000, 0, 0, 0⟩).1 rule :=
  throughput_high_raises_iff _ (by simp [estimators]) _ _

/-- The next packet measures 950 packets a second, after observations of 100 and 150: the estimate
falls. -/
theorem throughput_high_lowers :
    estimators.map (fun (update, start) =>
      let st := Steps.run (fun st a => (update st a).1) ⟨start, [], [], none, false⟩ twoBursts
      let r := update st ⟨54000000, 20000000, 0, 0, 0⟩
      (r.2, st.estimated, r.1.estimated))
    = [(some .throughputHighMonotonic, 750, 1325 / 2),
      (some .throughputHighMonotonic, 2450 / 3, 1425 / 2),
      (some .throughputHighMonotonic, 2450 / 3, 1425 / 2)] := by
  decide +kernel

end Mars.Bandwidth
