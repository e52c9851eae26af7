import Mars.Basic
import Mars.Lib.FinMap

/-!
The shadow loss detector of a flow (`shadow_loss.go`).

The detector watches the sequences that were sent and not yet answered.  A sequence is suspected
lost once it is old enough and enough later sequences were answered; nine pairs of thresholds are
only counted, and one of them also triggers a fast repair, at most once for each attempt.

* `ShadowLossDetector`: the watched sequences, the nine threshold states and the counters;
* `recordFreshSend`, `recordRecoverySend`, `recordAttempt`, `recordFastRepairSend`, `recordData`,
  `recordRTO`: what the flow reports;
* `scanPending`, `scanIfDue`: the scan, which returns the candidates for a fast repair;
* `recordFastRepairQueueOutcome`: what became of a candidate;
* `mem_recordFreshSend`, `mem_recordData`: only a fresh send adds a watched sequence and only Data
  removes one.

A detector is reset before it is first used, so `ensureInitialized` does nothing and is left out.
-/

namespace Mars

open AList

/-- The zero `time.Time`, the beginning of the year 1. -/
def zeroTime : Time := -62135596800000000000

def millisecond : Time := 1000000

/-- `shadowLossScanInterval`. -/
def shadowLossScanInterval : Time := 20 * millisecond

/-- `shadowFastRepairAgeFloor`. -/
def shadowFastRepairAgeFloor : Time := 350 * millisecond

/-- `shadowFastRepairLaterACKThreshold`. -/
def shadowFastRepairLaterACKThreshold : ℕ := 8

structure ShadowLossConfiguration where
  ageFloor : Time
  laterACKThreshold : ℕ
  deriving DecidableEq, Repr

/-- `shadowLossConfigurations`. -/
def shadowLossConfigurations : List ShadowLossConfiguration :=
  [⟨250 * millisecond, 8⟩, ⟨250 * millisecond, 16⟩, ⟨250 * millisecond, 32⟩,
    ⟨350 * millisecond, 8⟩, ⟨350 * millisecond, 16⟩, ⟨350 * millisecond, 32⟩,
    ⟨500 * millisecond, 8⟩, ⟨500 * millisecond, 16⟩, ⟨500 * millisecond, 32⟩]

inductive ShadowCandidateStatus where
  | none
  | active
  | resolvedBeforeRTO
  | reachedRTO
  deriving DecidableEq, Repr

/-- `shadowPendingSequence`; the generations are `0` when unset. -/
structure ShadowPendingSequence where
  firstSentAt : Time
  laterACKs : ℕ := 0
  inRecovery : Bool := false
  generation : ℕ := 0
  fastRepairTriggeredGeneration : ℕ := 0
  fastRepairQueuedGeneration : ℕ := 0
  fastRepairSent : Bool := false
  deriving DecidableEq, Repr

structure ShadowFastRepairCandidate where
  sequence : ℤ
  generation : ℕ
  age : Time
  laterACKs : ℕ
  deriving DecidableEq, Repr

inductive ShadowFastRepairQueueOutcome where
  | stale
  | queued
  | alreadyQueued
  | alreadyTriggered
  deriving DecidableEq, Repr

structure ShadowLossThresholdState where
  configuration : ShadowLossConfiguration
  status : ℤ → ShadowCandidateStatus := fun _ => .none
  suspectedAt : FinMap ℤ Time := ∅
  shadowSuspects : ℕ := 0
  resolvedBeforeRTO : ℕ := 0
  reachedRTO : ℕ := 0
  leadToRTOTotal : Time := 0
  suspectInflightTime : Time := 0

structure ShadowLossDetector where
  pending : FinMap ℤ ShadowPendingSequence := ∅
  states : List ShadowLossThresholdState :=
    shadowLossConfigurations.map fun configuration =>
      ⟨configuration, fun _ => .none, ∅, 0, 0, 0, 0, 0⟩
  lastScan : Time := zeroTime
  firstAttemptRTOs : ℕ := 0
  fastRepairTriggers : ℕ := 0
  fastRepairQueued : ℕ := 0
  fastRepairAlreadyQueued : ℕ := 0
  fastRepairAlreadyTriggered : ℕ := 0
  fastRepairStale : ℕ := 0
  fastRepairSent : ℕ := 0
  fastRepairResolved : ℕ := 0
  fastRepairResolvedAfterSend : ℕ := 0

/-- `nonNegativeDuration`. -/
def nonNegativeDuration (finish start : Time) : Time := max (finish - start) 0

namespace ShadowLossThresholdState

/-- `finishCandidateLocked`: an active suspicion ends with `status`. -/
def finishCandidate (state : ShadowLossThresholdState) (sequence : ℤ)
    (status : ShadowCandidateStatus) (finishedAt : Time) : ShadowLossThresholdState :=
  match state.suspectedAt.lookup sequence with
  | some suspectedAt =>
    if state.status sequence ≠ .active then state
    else
      let duration := nonNegativeDuration finishedAt suspectedAt
      let state := { state with
        suspectInflightTime := state.suspectInflightTime + duration
        suspectedAt := state.suspectedAt.erase sequence
        status := Function.update state.status sequence status }
      match status with
      | .resolvedBeforeRTO => { state with resolvedBeforeRTO := state.resolvedBeforeRTO + 1 }
      | .reachedRTO =>
        { state with
          reachedRTO := state.reachedRTO + 1
          leadToRTOTotal := state.leadToRTOTotal + duration }
      | _ => state
  | none => state

/-- The part of the scan that one threshold state sees of one sequence. -/
def suspect (state : ShadowLossThresholdState) (sequence : ℤ) (age : Time) (laterACKs : ℕ)
    (now : Time) : ShadowLossThresholdState :=
  if state.status sequence ≠ .none ∨ age < state.configuration.ageFloor
      ∨ laterACKs < state.configuration.laterACKThreshold then state
  else { state with
    status := Function.update state.status sequence .active
    suspectedAt := state.suspectedAt.insert sequence now
    shadowSuspects := state.shadowSuspects + 1 }

end ShadowLossThresholdState

namespace ShadowPendingSequence

variable (pending : ShadowPendingSequence)

/-- Whether a scan looks at the sequence at all. -/
def scanned : Bool :=
  !pending.inRecovery && pending.firstSentAt != zeroTime

def age (now : Time) : Time :=
  nonNegativeDuration now pending.firstSentAt

/-- Whether the attempt at hand can still trigger a fast repair. -/
def armed : Bool :=
  pending.scanned && pending.generation != 0
    && pending.fastRepairTriggeredGeneration != pending.generation

/-- Whether a scan at `now` triggers a fast repair. -/
def repairDue (now : Time) : Bool :=
  pending.armed && shadowFastRepairAgeFloor ≤ pending.age now
    && shadowFastRepairLaterACKThreshold ≤ pending.laterACKs

/-- The fast repair of the attempt at hand is triggered. -/
def trigger : ShadowPendingSequence :=
  { pending with fastRepairTriggeredGeneration := pending.generation }

end ShadowPendingSequence

namespace ShadowFastRepairCandidate

/-- The order of the candidates: the oldest first, then by sequence. -/
def Before (a b : ShadowFastRepairCandidate) : Prop :=
  b.age < a.age ∨ a.age = b.age ∧ a.sequence ≤ b.sequence

instance : DecidableRel Before := fun a b =>
  inferInstanceAs (Decidable (b.age < a.age ∨ a.age = b.age ∧ a.sequence ≤ b.sequence))

end ShadowFastRepairCandidate

namespace ShadowLossDetector

variable (d : ShadowLossDetector)

/-- `reset`. -/
def reset : ShadowLossDetector := {}

/-- `recordFreshSendLocked`. -/
def recordFreshSend (sequence : ℤ) (sentAt : Time) : ShadowLossDetector :=
  if sequence ≤ 0 ∨ sequence ∈ d.pending then d
  else { d with pending := d.pending.insert sequence ⟨sentAt, 0, false, 0, 0, 0, false⟩ }

/-- `recordRecoverySendLocked`. -/
def recordRecoverySend (sequence : ℤ) : ShadowLossDetector :=
  { d with pending := d.pending.modify sequence fun pending =>
      { pending with inRecovery := true } }

/-- `recordAttemptLocked`. -/
def recordAttempt (sequence : ℤ) (generation : ℕ) : ShadowLossDetector :=
  if sequence ≤ 0 ∨ generation = 0 then d
  else { d with pending := d.pending.modify sequence fun pending =>
      { pending with generation := generation } }

/-- `recordFastRepairSendLocked`. -/
def recordFastRepairSend (sequence : ℤ) : ShadowLossDetector :=
  { d with
    fastRepairSent := d.fastRepairSent + 1
    pending := d.pending.modify sequence fun pending => { pending with fastRepairSent := true } }

/-- The effect of Data on the sequence it answers. -/
def resolve (sequence : ℤ) (receivedAt : Time) : ShadowLossDetector :=
  match d.pending.lookup sequence with
  | some pending =>
    { d with
      fastRepairResolved := d.fastRepairResolved
        + if pending.fastRepairQueuedGeneration ≠ 0 then 1 else 0
      fastRepairResolvedAfterSend := d.fastRepairResolvedAfterSend
        + if pending.fastRepairQueuedGeneration ≠ 0 ∧ pending.fastRepairSent then 1 else 0
      states := d.states.map fun state =>
        state.finishCandidate sequence .resolvedBeforeRTO receivedAt
      pending := d.pending.erase sequence }
  | none => d

/-- `recordDataLocked`: the sequence is resolved, and the earlier ones that are not in recovery
see one more later acknowledgement. -/
def recordData (sequence : ℤ) (receivedAt : Time) : ShadowLossDetector :=
  let d := d.resolve sequence receivedAt
  { d with pending := d.pending.mapVals fun pendingSequence pending =>
      if pendingSequence < sequence ∧ !pending.inRecovery then
        { pending with laterACKs := pending.laterACKs + 1 }
      else pending }

/-- `recordRTOLocked`. -/
def recordRTO (sequence : ℤ) (expiredAt : Time) : ShadowLossDetector :=
  { d with
    firstAttemptRTOs := d.firstAttemptRTOs
      + if (d.pending.lookup sequence).any (fun pending => !pending.inRecovery) then 1 else 0
    pending := d.pending.modify sequence fun pending => { pending with inRecovery := true }
    states := d.states.map fun state => state.finishCandidate sequence .reachedRTO expiredAt }

/-- The sequences whose fast repair a scan at `now` triggers, as candidates. -/
def dueCandidates (now : Time) : List ShadowFastRepairCandidate :=
  (d.pending.entries.filter fun e => e.2.repairDue now).map fun e =>
    ⟨e.1, e.2.generation, e.2.age now, e.2.laterACKs⟩

/-- `scanPendingLocked` with `collectFastRepair`.  The body of its loop reads and writes only what
belongs to the sequence it visits, so its three effects are three passes here: the threshold
states, the pending sequences, and the candidates. -/
def scanPending (now : Time) : ShadowLossDetector × List ShadowFastRepairCandidate :=
  ({ d with
      states := (d.pending.entries.filter fun e => e.2.scanned).foldl
        (fun states e => states.map fun state => state.suspect e.1 (e.2.age now) e.2.laterACKs now)
        d.states
      pending := d.pending.mapVals fun _ pending =>
        if pending.repairDue now then pending.trigger else pending
      fastRepairTriggers := d.fastRepairTriggers + (d.dueCandidates now).length },
    (d.dueCandidates now).insertionSort ShadowFastRepairCandidate.Before)

/-- `scanIfDueLocked`. -/
def scanIfDue (now : Time) : ShadowLossDetector × List ShadowFastRepairCandidate :=
  if d.lastScan ≠ zeroTime ∧ now - d.lastScan < shadowLossScanInterval then (d, [])
  else ({ d with lastScan := now } : ShadowLossDetector).scanPending now

/-- `recordFastRepairQueueOutcomeLocked`. -/
def recordFastRepairQueueOutcome (candidate : ShadowFastRepairCandidate) :
    ShadowFastRepairQueueOutcome → ShadowLossDetector
  | .queued =>
    { d with
      fastRepairQueued := d.fastRepairQueued + 1
      pending := d.pending.modify candidate.sequence fun pending =>
        if pending.generation = candidate.generation then
          { pending with fastRepairQueuedGeneration := candidate.generation }
        else pending }
  | .alreadyQueued => { d with fastRepairAlreadyQueued := d.fastRepairAlreadyQueued + 1 }
  | .alreadyTriggered => { d with fastRepairAlreadyTriggered := d.fastRepairAlreadyTriggered + 1 }
  | .stale => { d with fastRepairStale := d.fastRepairStale + 1 }

/-! ### The watched sequences -/

variable {d} {k : ℤ} {sequence : ℤ}

lemma mem_recordFreshSend {sentAt : Time} :
    k ∈ (d.recordFreshSend sequence sentAt).pending
      ↔ k ∈ d.pending ∨ k = sequence ∧ 0 < sequence := by
  rw [recordFreshSend]
  split_ifs with h
  · constructor
    · exact .inl
    · rintro (hk | ⟨rfl, hpos⟩)
      · exact hk
      · exact h.resolve_left (not_le.mpr hpos)
  · rw [mem_insert]
    constructor
    · rintro (rfl | hk)
      · exact .inr ⟨rfl, not_le.mp fun hle => h (.inl hle)⟩
      · exact .inl hk
    · rintro (hk | ⟨rfl, -⟩)
      · exact .inr hk
      · exact .inl rfl

@[simp] lemma mem_recordRecoverySend :
    k ∈ (d.recordRecoverySend sequence).pending ↔ k ∈ d.pending := mem_modify

@[simp] lemma mem_recordAttempt {generation : ℕ} :
    k ∈ (d.recordAttempt sequence generation).pending ↔ k ∈ d.pending := by
  rw [recordAttempt]
  split_ifs
  · rfl
  · exact mem_modify

@[simp] lemma mem_recordFastRepairSend :
    k ∈ (d.recordFastRepairSend sequence).pending ↔ k ∈ d.pending := mem_modify

@[simp] lemma mem_recordRTO {now : Time} :
    k ∈ (d.recordRTO sequence now).pending ↔ k ∈ d.pending := mem_modify

@[simp] lemma mem_scanIfDue {now : Time} : k ∈ (d.scanIfDue now).1.pending ↔ k ∈ d.pending := by
  rw [scanIfDue]
  split_ifs
  · rfl
  · exact mem_mapVals

@[simp] lemma mem_recordFastRepairQueueOutcome {candidate : ShadowFastRepairCandidate}
    {outcome : ShadowFastRepairQueueOutcome} :
    k ∈ (d.recordFastRepairQueueOutcome candidate outcome).pending ↔ k ∈ d.pending := by
  cases outcome with
  | queued => exact mem_modify
  | _ => rfl

lemma mem_recordData {now : Time} :
    k ∈ (d.recordData sequence now).pending ↔ k ≠ sequence ∧ k ∈ d.pending := by
  rw [recordData, mem_mapVals, resolve]
  split
  · exact mem_erase
  · rename_i hnone
    have hsequence : sequence ∉ d.pending := lookup_eq_none.mp hnone
    exact ⟨fun hk => ⟨fun h => hsequence (h ▸ hk), hk⟩, And.right⟩

end ShadowLossDetector

end Mars
