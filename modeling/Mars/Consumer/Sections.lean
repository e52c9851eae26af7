import Mars.Consumer.Flow
import Mars.Lib.Steps

/-!
The critical sections of a flow, in any order.

* `FlowOp`, `flowStep`, `flowRun`: one section under `FlowContext.mu`, and a list of them;
* `FlowOut`, `flowTrace`: what the sections report;
* `Frame`, `frame_of_quiet`: most sections leave the transfer and the path discovery as they are;
* `recordInterestSend_dt`, `recordInterestSend_pd`, `onData_dt`, `onData_pd`, `pop_spec`: what the
  others do;
* `DtStep`, `PdStep`, `flowStep_cases`: what a section can do, in each mode.
-/

namespace Mars

open List Finset

/-- A critical section of a flow. -/
inductive FlowOp where
  | record (name : Name) (seq : ℤ) (now : Time) (isRetransmission : Bool)
  | queueRetransmission (seq : ℤ)
  | queueRepair (candidate : ShadowFastRepairCandidate)
  | repairOutcome (candidate : ShadowFastRepairCandidate) (outcome : ShadowFastRepairQueueOutcome)
  | pop
  | install (seq : ℤ) (generation : ℕ) (isFastRepair : Bool)
  | shadowRTO (seq : ℤ) (now : Time)
  | dtRTO
  | scan (now : Time)
  | nack (name : Name)
  | timeout (name : Name)
  | data (payload : List ℕ) (name : Name) (now : Time)
  | pdTick
  | setRate (rate : ℚ)
  | switch (now : Time)
  deriving DecidableEq, Repr

/-- What a section reports: an Interest that was recorded, a Data packet that was accepted, a call
of `updateRTT`, a fast repair that was triggered. -/
inductive FlowOut where
  | recorded (mode : TransmissionMode) (name : Name) (seq : ℤ) (isRetransmission : Bool)
  | accepted (seq : ℤ) (bytes : ℕ)
  | sampled (seq : ℤ)
  | triggered (seq : ℤ) (generation : ℕ)
  deriving DecidableEq, Repr

section Steps

variable (cfg : ConsumerConfig)

variable (f : FlowContext)

def flowStep : FlowOp → FlowContext
  | .record name seq now isRetransmission =>
    (f.recordInterestSend name seq now isRetransmission).1
  | .queueRetransmission seq => (f.queueRetransmission seq).1
  | .queueRepair candidate => (f.queueShadowFastRepair candidate).1
  | .repairOutcome candidate outcome => f.recordShadowFastRepairOutcome candidate outcome
  | .pop => f.popRetransmission.1
  | .install seq generation isFastRepair =>
    f.installShadowAttemptAndClearQueued seq generation isFastRepair
  | .shadowRTO seq now => f.recordShadowRTO seq now
  | .dtRTO => f.onDTRTO
  | .scan now => (f.runShadowLossScan now).1
  | .nack name => f.onNack name
  | .timeout name => f.onTimeout cfg name
  | .data payload name now => (f.onData cfg payload name now).1
  | .pdTick => f.pdTick.1
  | .setRate rate => f.setRate rate
  | .switch now => f.switchToDT cfg now

def flowOut : FlowOp → List FlowOut
  | .record name seq now isRetransmission =>
    if (f.recordInterestSend name seq now isRetransmission).2.2 then
      [.recorded f.mode name seq isRetransmission]
    else []
  | .data payload name now =>
    if f.mode = .dt ∧ (f.onData cfg payload name now).2 then
      .accepted (extractSeqNum name) payload.length
        :: if (f.pendingSends.lookup name).any (fun pending => !pending.retransmitted) then
          [.sampled (extractSeqNum name)]
        else []
    else []
  | .scan now =>
    (f.runShadowLossScan now).2.map fun candidate =>
      .triggered candidate.sequence candidate.generation
  | _ => []

def flowHandle (op : FlowOp) : FlowContext × List FlowOut :=
  (flowStep cfg f op, flowOut cfg f op)

/-- The state after a list of sections. -/
def flowRun (ops : List FlowOp) : FlowContext := Steps.run (flowStep cfg) f ops

/-- The reports of a list of sections. -/
def flowTrace (ops : List FlowOp) : List FlowOut :=
  Steps.trace (flowHandle cfg) f ops

end Steps

variable {cfg : ConsumerConfig} {f : FlowContext}

lemma flowTrace_append {ops ops' : List FlowOp} :
    flowTrace cfg f (ops ++ ops') = flowTrace cfg f ops ++ flowTrace cfg (flowRun cfg f ops) ops' :=
  Steps.trace_append

lemma flowTrace_concat {ops : List FlowOp} {op : FlowOp} :
    flowTrace cfg f (ops ++ [op]) = flowTrace cfg f ops ++ flowOut cfg (flowRun cfg f ops) op := by
  rw [flowTrace_append]
  congr 1
  exact append_nil _

/-! ### Sections that only touch the queue, the detector and the rate -/

/-- `f'` has the transfer and the path discovery of `f`. -/
structure Frame (f f' : FlowContext) : Prop where
  flowPrefix : f'.flowPrefix = f.flowPrefix
  baseName : f'.baseName = f.baseName
  mode : f'.mode = f.mode
  pendingSends : f'.pendingSends = f.pendingSends
  totalBytes : f'.totalBytes = f.totalBytes
  pktsReceivedTotal : f'.pktsReceivedTotal = f.pktsReceivedTotal
  receivedSeqs : f'.receivedSeqs = f.receivedSeqs
  isFinished : f'.isFinished = f.isFinished
  doneCloses : f'.doneCloses = f.doneCloses
  currentTier : f'.currentTier = f.currentTier
  isPaused : f'.isPaused = f.isPaused
  stopPD : f'.stopPD = f.stopPD
  outstandingPD : f'.outstandingPD = f.outstandingPD
  rehearsalCount : f'.rehearsalCount = f.rehearsalCount
  pdFinished : f'.pdFinished = f.pdFinished

lemma Frame.refl : Frame f f :=
  ⟨rfl, rfl, rfl, rfl, rfl, rfl, rfl, rfl, rfl, rfl, rfl, rfl, rfl, rfl, rfl⟩

lemma Frame.interestNameForSeq {f' : FlowContext} (h : Frame f f') {seq : ℤ} :
    f'.interestNameForSeq seq = f.interestNameForSeq seq := by
  rw [FlowContext.interestNameForSeq, h.baseName]
  rfl

/-- The sections that leave the transfer and the path discovery as they are. -/
def FlowOp.quiet : FlowOp → Bool
  | .queueRetransmission _ | .queueRepair _ | .repairOutcome _ _ | .pop | .install _ _ _
  | .shadowRTO _ _ | .dtRTO | .scan _ | .setRate _ => true
  | _ => false

namespace FlowContext

/-- Queueing a sequence touches the retransmission queue and nothing else. -/
lemma queueRetransmissionLocked_eq {seq : ℤ} : ∃ queue queued,
    (f.queueRetransmissionLocked seq).1 = { f with retxQueue := queue, retxQueued := queued } := by
  rw [queueRetransmissionLocked]
  split_ifs <;> exact ⟨_, _, rfl⟩

/-- `queueShadowFastRepair` may queue the sequence, and then records the outcome. -/
lemma queueShadowFastRepair_cases {candidate : ShadowFastRepairCandidate} :
    (∃ outcome ≠ .queued, f.queueShadowFastRepair candidate
        = (f.recordShadowFastRepairOutcome candidate outcome, outcome))
      ∨ f.repairCurrent candidate = true ∧ (f.queueRetransmissionLocked candidate.sequence).2 = true
        ∧ f.queueShadowFastRepair candidate
          = ((f.queueRetransmissionLocked candidate.sequence).1.recordShadowFastRepairOutcome
            candidate .queued, .queued) := by
  rw [queueShadowFastRepair]
  split_ifs with hcurrent hqueued
  · exact .inl ⟨.stale, by decide, rfl⟩
  · exact .inl ⟨.alreadyQueued, by decide, rfl⟩
  · cases hq : f.queueRetransmissionLocked candidate.sequence with
    | mk f' queued =>
      cases queued with
      | true => exact .inr ⟨by simpa using hcurrent, rfl, rfl⟩
      | false =>
        have hf' : f' = f := by
          rw [queueRetransmissionLocked] at hq
          split_ifs at hq <;> cases hq <;> rfl
        subst hf'
        exact .inl ⟨.stale, by decide, rfl⟩

/-- The entries of the retransmission queue that are still to be looked at. -/
def retxRest (f : FlowContext) : List ℤ := f.retxQueue.drop f.retxHead

/-- A marked sequence that is to be sent again. -/
def RetxDue (f : FlowContext) (seq : ℤ) : Prop :=
  seq ∈ f.retxQueued ∧ f.mode = .dt ∧ f.isFinished = false
    ∧ f.interestNameForSeq seq ∈ f.pendingSends

/-- The flow once the oldest entry has been looked at. -/
def retxPassed (f : FlowContext) : FlowContext :=
  { f with
    retxQueue := f.retxQueue.set f.retxHead 0
    retxHead := f.retxHead + 1
    retxQueued := f.retxQueued.erase (f.retxQueue.getD f.retxHead 0) }

lemma popLoop_of_due {turns : ℕ} (h : f.RetxDue (f.retxQueue.getD f.retxHead 0)) :
    popRetransmissionLoop (turns + 1) f
      = (f.retxPassed.compactRetransmissionQueue, some (f.retxQueue.getD f.retxHead 0)) := by
  obtain ⟨hmarked, hmode, hunfinished, hpending⟩ := h
  simp only [popRetransmissionLoop]
  split_ifs with hover hgone
  · simp [hmode, hunfinished] at hover
  · rfl
  · exact absurd hpending hgone

lemma popLoop_of_not_due {turns : ℕ} (h : ¬f.RetxDue (f.retxQueue.getD f.retxHead 0)) :
    popRetransmissionLoop (turns + 1) f = popRetransmissionLoop turns f.retxPassed := by
  simp only [popRetransmissionLoop]
  split_ifs with hmarked hover hpending
  · rfl
  · obtain ⟨hmode, hunfinished⟩ := not_or.mp hover
    exact absurd ⟨hmarked, not_not.mp hmode, by simpa using hunfinished, hpending⟩ h
  · rfl
  · rw [retxPassed, erase_eq_of_notMem hmarked]

/-- Compaction keeps the entries that are still to be looked at. -/
lemma compact_eq : ∃ queue head, f.compactRetransmissionQueue
      = { f with retxQueue := queue, retxHead := head } ∧ queue.drop head = f.retxRest
    ∧ (f.retxHead ≤ f.retxQueue.length → head ≤ queue.length) := by
  rw [compactRetransmissionQueue]
  split_ifs
  · exact ⟨f.retxQueue, f.retxHead, rfl, rfl, id⟩
  · exact ⟨f.retxQueue, f.retxHead, rfl, rfl, id⟩
  · exact ⟨_, _, rfl, rfl, fun _ => Nat.zero_le _⟩

lemma retxRest_cons {seq : ℤ} {rest : List ℤ} (h : f.retxRest = seq :: rest) :
    f.retxQueue.getD f.retxHead 0 = seq ∧ f.retxPassed.retxRest = rest
      ∧ f.retxPassed.retxHead ≤ f.retxPassed.retxQueue.length := by
  have hlt : f.retxHead < f.retxQueue.length := by
    have := congrArg length h
    rw [retxRest, length_drop, length_cons] at this
    omega
  rw [retxRest, drop_eq_getElem_cons hlt] at h
  obtain ⟨hseq, hrest⟩ := List.cons.inj h
  refine ⟨by simp [getD, hlt, hseq], ?_, length_set.symm ▸ hlt⟩
  rw [retxRest, retxPassed, drop_set_of_lt (Nat.lt_succ_self _), hrest]

/-- The entries that are not due are dropped, with their markers, up to one that is due, or to the
end. -/
def Pops (f : FlowContext) (r : FlowContext × Option ℤ) : Prop :=
  ∃ passed rest queue head, f.retxRest = passed ++ rest ∧ queue.drop head = rest
    ∧ head ≤ queue.length ∧ r.1 = { f with
      retxQueue := queue, retxHead := head, retxQueued := f.retxQueued \ passed.toFinset }
    ∧ match r.2 with
      | some k => ∃ skipped, passed = skipped ++ [k] ∧ f.RetxDue k ∧ ∀ j ∈ skipped, ¬f.RetxDue j
      | none => rest = [] ∧ ∀ j ∈ passed, ¬f.RetxDue j

/-- **What the loop of `PopRetransmission` does.** -/
lemma popLoop_spec {turns : ℕ} (f : FlowContext) (hturns : f.retxRest.length = turns) :
    f.Pops (popRetransmissionLoop turns f) := by
  induction turns generalizing f with
  | zero =>
    rw [length_eq_zero_iff] at hturns
    exact ⟨[], [], [], 0, hturns, rfl, le_rfl, by simp [popRetransmissionLoop],
      by simp [popRetransmissionLoop]⟩
  | succ turns ih =>
    obtain ⟨seq, rest, hcons⟩ := exists_cons_of_length_eq_add_one hturns
    obtain ⟨hseq, hrest, hhead⟩ := retxRest_cons hcons
    have hqueued : f.retxPassed.retxQueued = f.retxQueued.erase seq := by rw [← hseq]; rfl
    by_cases hdue : f.RetxDue seq
    · obtain ⟨queue, head, heq, hdrop, hle⟩ := compact_eq (f := f.retxPassed)
      rw [popLoop_of_due (hseq.symm ▸ hdue), heq, hseq]
      refine ⟨[seq], rest, queue, head, hcons, hdrop.trans hrest, hle hhead, ?_, [], rfl, hdue,
        by simp⟩
      rw [toFinset_cons, toFinset_nil, insert_empty_eq, sdiff_singleton_eq_erase, ← hqueued]
      rfl
    · rw [popLoop_of_not_due (hseq.symm ▸ hdue)]
      obtain ⟨passed, rest', queue, head, hsplit, hdrop, hle, heq, hret⟩ := ih f.retxPassed (by
        rw [hrest]; simpa [hcons] using hturns)
      have hdue_iff : ∀ j, f.retxPassed.RetxDue j ↔ f.RetxDue j := by
        intro j
        have : j ∈ f.retxPassed.retxQueued ↔ j ≠ seq ∧ j ∈ f.retxQueued := by
          rw [hqueued, mem_erase]
        refine ⟨fun h => ⟨(this.mp h.1).2, h.2⟩, fun h => ⟨this.mpr ⟨?_, h.1⟩, h.2⟩⟩
        rintro rfl
        exact hdue h
      simp only [hdue_iff] at hret
      refine ⟨seq :: passed, rest', queue, head, ?_, hdrop, hle, ?_, ?_⟩
      · rw [hcons, ← hrest, hsplit, cons_append]
      · rw [heq, hqueued, toFinset_cons, sdiff_insert, erase_sdiff_comm]
        rfl
      · revert hret
        cases (popRetransmissionLoop turns f.retxPassed).2 with
        | none => exact fun h => ⟨h.1, forall_mem_cons.mpr ⟨hdue, h.2⟩⟩
        | some k =>
          rintro ⟨skipped, hpassed, hk, hskipped⟩
          exact ⟨seq :: skipped, by rw [hpassed, cons_append], hk,
            forall_mem_cons.mpr ⟨hdue, hskipped⟩⟩

/-- What `PopRetransmission` does. -/
lemma pop_spec (f : FlowContext) : f.Pops f.popRetransmission := popLoop_spec f length_drop

lemma RetxDue.of_pop {k : ℤ} (h : f.popRetransmission.2 = some k) : f.RetxDue k := by
  obtain ⟨_, _, _, _, -, -, -, -, hret⟩ := f.pop_spec
  rw [h] at hret
  obtain ⟨_, -, hdue, -⟩ := hret
  exact hdue

/-- A sequence that is due stays marked until it is returned. -/
lemma RetxDue.pop {k : ℤ} (h : f.RetxDue k) :
    k ∈ f.popRetransmission.1.retxQueued ∨ f.popRetransmission.2 = some k := by
  obtain ⟨passed, _, _, _, -, -, -, heq, hret⟩ := f.pop_spec
  by_cases hpassed : k ∈ passed
  · right
    revert hret
    cases f.popRetransmission.2 with
    | none => exact fun hret => absurd h (hret.2 k hpassed)
    | some j =>
      rintro ⟨skipped, rfl, -, hskipped⟩
      obtain hk | hk := mem_append.mp hpassed
      · exact absurd h (hskipped k hk)
      · rw [List.mem_singleton.mp hk]
  · left
    rw [heq]
    exact mem_sdiff.mpr ⟨h.1, fun hk => hpassed (mem_toFinset.mp hk)⟩

end FlowContext

section Quiet

open FlowContext ShadowLossDetector

variable {op : FlowOp}

/-- The candidate and the outcome that a section records. -/
def FlowOp.outcome (f : FlowContext) :
    FlowOp → Option (ShadowFastRepairCandidate × ShadowFastRepairQueueOutcome)
  | .queueRepair candidate => some (candidate, (f.queueShadowFastRepair candidate).2)
  | .repairOutcome candidate outcome => some (candidate, outcome)
  | _ => none

/-- The candidates that a section collects. -/
def FlowOp.candidates (f : FlowContext) : FlowOp → List ShadowFastRepairCandidate
  | .scan now => (f.runShadowLossScan now).2
  | _ => []

/-- What a section can do to the detector, with the candidates that it collects. -/
inductive ShadowStep (f : FlowContext) :
    FlowOp → ShadowLossDetector → List ShadowFastRepairCandidate → Prop
  | same {op : FlowOp} (hop : op.outcome f = none) : ShadowStep f op f.shadowLoss []
  | fresh {name : Name} {seq : ℤ} {now : Time} (hmode : f.mode = .dt) :
      ShadowStep f (.record name seq now false) (f.shadowLoss.recordFreshSend seq now) []
  | recover {name : Name} {seq : ℤ} {now : Time} (hmode : f.mode = .dt) :
      ShadowStep f (.record name seq now true) (f.shadowLoss.recordRecoverySend seq) []
  | install {seq : ℤ} {generation : ℕ} {isFastRepair : Bool} (hmode : f.mode = .dt) :
      ShadowStep f (.install seq generation isFastRepair)
        (f.installShadowAttempt seq generation isFastRepair) []
  | rto {seq : ℤ} {now : Time} (hmode : f.mode = .dt) :
      ShadowStep f (.shadowRTO seq now) (f.shadowLoss.recordRTO seq now) []
  | outcome {op : FlowOp} {candidate : ShadowFastRepairCandidate}
      {outcome : ShadowFastRepairQueueOutcome} (hop : op.outcome f = some (candidate, outcome)) :
      ShadowStep f op (f.shadowLoss.recordFastRepairQueueOutcome candidate outcome) []
  | scan {now : Time} (hmode : f.mode = .dt) :
      ShadowStep f (.scan now) (f.shadowLoss.scanIfDue now).1 (f.shadowLoss.scanIfDue now).2
  | data {payload : List ℕ} {name : Name} {now : Time} (hmode : f.mode = .dt) :
      ShadowStep f (.data payload name now) (f.shadowLoss.recordData (extractSeqNum name) now) []
  | switch {now : Time} : ShadowStep f (.switch now) {} []

/-- What a quiet section changes, and what it does to the detector. -/
lemma quiet_cases (h : op.quiet = true) : ∃ queue head queued loss rate events,
    flowStep cfg f op = { f with
      retxQueue := queue, retxHead := head, retxQueued := queued, shadowLoss := loss
      currentRate := rate, timeoutEvents := events }
    ∧ ShadowStep f op loss (op.candidates f) := by
  cases op with
  | queueRetransmission seq =>
    rw [flowStep, queueRetransmission]
    split_ifs
    · exact ⟨_, _, _, _, _, _, rfl, .same rfl⟩
    · obtain ⟨queue, queued, heq⟩ := f.queueRetransmissionLocked_eq
      exact ⟨_, _, _, _, _, _, heq, .same rfl⟩
  | queueRepair candidate =>
    have hstep : ShadowStep f (.queueRepair candidate) _ [] := .outcome rfl
    rw [flowStep]
    obtain ⟨outcome, -, heq⟩ | ⟨-, -, heq⟩ := f.queueShadowFastRepair_cases
    · rw [heq] at hstep ⊢
      exact ⟨_, _, _, _, _, _, rfl, hstep⟩
    · obtain ⟨queue, queued, hqueue⟩ := f.queueRetransmissionLocked_eq
      rw [heq, hqueue]
      rw [heq] at hstep
      exact ⟨_, _, _, _, _, _, rfl, hstep⟩
  | repairOutcome candidate outcome => exact ⟨_, _, _, _, _, _, rfl, .outcome rfl⟩
  | pop =>
    obtain ⟨_, _, _, _, -, -, -, heq, -⟩ := f.pop_spec
    exact ⟨_, _, _, _, _, _, heq, .same rfl⟩
  | install seq generation isFastRepair =>
    rw [flowStep, installShadowAttemptAndClearQueued, clearQueuedRetransmission]
    by_cases hmode : f.mode = .dt
    · rw [if_pos hmode]
      split_ifs <;> exact ⟨_, _, _, _, _, _, rfl, .install hmode⟩
    · rw [if_neg hmode]
      split_ifs <;> exact ⟨_, _, _, _, _, _, rfl, .same rfl⟩
  | shadowRTO seq now =>
    rw [flowStep, recordShadowRTO]
    split_ifs with hmode
    · exact ⟨_, _, _, _, _, _, rfl, .rto hmode⟩
    · exact ⟨_, _, _, _, _, _, rfl, .same rfl⟩
  | dtRTO => exact ⟨_, _, _, _, _, _, rfl, .same rfl⟩
  | scan now =>
    rw [flowStep, FlowOp.candidates, runShadowLossScan]
    split_ifs with hover
    · exact ⟨_, _, _, _, _, _, rfl, .same rfl⟩
    · exact ⟨_, _, _, _, _, _, rfl, .scan (not_not.mp (not_or.mp hover).1)⟩
  | setRate rate =>
    rw [flowStep, setRate]
    split_ifs <;> exact ⟨_, _, _, _, _, _, rfl, .same rfl⟩
  | _ => cases h

lemma frame_of_quiet (h : op.quiet = true) : Frame f (flowStep cfg f op) := by
  obtain ⟨_, _, _, _, _, _, heq, -⟩ := quiet_cases h
  rw [heq]
  exact { Frame.refl with }

lemma shadowStep_of_quiet (h : op.quiet = true) :
    ShadowStep f op (flowStep cfg f op).shadowLoss (op.candidates f) := by
  obtain ⟨_, _, _, _, _, _, heq, hstep⟩ := quiet_cases h
  rw [heq]
  exact hstep

/-- The quiet sections watch the same sequences. -/
lemma ShadowStep.watched {d : ShadowLossDetector} {candidates : List ShadowFastRepairCandidate}
    (h : ShadowStep f op d candidates) (hquiet : op.quiet = true) {k : ℤ} :
    k ∈ d.pending ↔ k ∈ f.shadowLoss.pending := by
  cases h with
  | same => rfl
  | install =>
    rw [installShadowAttempt]
    split_ifs <;> simp
  | rto => exact mem_recordRTO
  | outcome => exact mem_recordFastRepairQueueOutcome
  | scan => exact mem_scanIfDue
  | _ => cases hquiet

end Quiet

/-! ### Sends -/

namespace FlowContext

variable {name : Name} {now : Time} {isRetransmission : Bool}

lemma recordInterestSend_dt (hmode : f.mode = .dt) {seq : ℤ} :
    f.recordInterestSend name seq now isRetransmission
      = if f.isFinished ∨ seq ∈ f.receivedSeqs then (f, .dt, false)
        else ({ f with
          pendingSends := f.pendingSends.insert name (f.sentEntry name now isRetransmission)
          shadowLoss := if isRetransmission then f.shadowLoss.recordRecoverySend seq
            else f.shadowLoss.recordFreshSend seq now
          maxInflight := max f.maxInflight
            (f.pendingSends.insert name (f.sentEntry name now isRetransmission)).size },
          .dt, true) := by
  simp only [recordInterestSend, hmode, true_and]

lemma recordInterestSend_pd (hmode : f.mode = .pd) {seq : ℤ} :
    f.recordInterestSend name seq now isRetransmission
      = ({ f with
          pendingSends := f.pendingSends.insert name (f.sentEntry name now isRetransmission)
          outstandingPD := f.outstandingPD + if isRetransmission then 0 else 1 }, .pd, true) := by
  simp only [recordInterestSend, hmode, reduceCtorEq, false_and, if_false]

/-! ### Answers during data transmission -/

lemma recordInterestSend_refused {seq : ℤ}
    (h : (f.recordInterestSend name seq now isRetransmission).2.2 = false) :
    f.recordInterestSend name seq now isRetransmission = (f, f.mode, false) := by
  cases hmode : f.mode with
  | dt =>
    rw [recordInterestSend_dt hmode] at h ⊢
    split_ifs at h ⊢
    rfl
  | pd =>
    rw [recordInterestSend_pd hmode] at h
    cases h

lemma onNack_dt (hmode : f.mode = .dt) : f.onNack name = f := by
  rw [onNack, hmode]

lemma onTimeout_dt (hmode : f.mode = .dt) :
    f.onTimeout cfg name = { f with pendingSends := f.pendingSends.erase name } := by
  rw [onTimeout]
  split
  · rename_i hpd
    rw [hmode] at hpd
    cases hpd
  · rfl

/-- `f'` differs from `f` only in what is measured. -/
def Measured (f f' : FlowContext) : Prop :=
  ∃ history srtt rttVar rto sum calibrated base window, f' = { f with
    rttHistory := history, srtt := srtt, rttVar := rttVar, rto := rto, initialRTTSum := sum,
    pktsCalibrated := calibrated, baseRTT := base, congestionWindow := window }

lemma Measured.refl : Measured f f := ⟨_, _, _, _, _, _, _, _, rfl⟩

lemma Measured.trans {f₁ f₂ f₃ : FlowContext} (h : Measured f₁ f₂) (h' : Measured f₂ f₃) :
    Measured f₁ f₃ := by
  obtain ⟨_, _, _, _, _, _, _, _, rfl⟩ := h
  obtain ⟨_, _, _, _, _, _, _, _, rfl⟩ := h'
  exact ⟨_, _, _, _, _, _, _, _, rfl⟩

lemma measured_updateRTT {rttVal : ℚ} : Measured f (f.updateRTT cfg now rttVal) :=
  ⟨_, _, _, _, _, _, _, _, rfl⟩

lemma measured_updateRateControl {rttVal : ℚ} {rttValid : Bool} :
    Measured f (f.updateRateControl cfg rttVal rttValid) := by
  simp only [updateRateControl]
  split_ifs <;> exact ⟨_, _, _, _, _, _, _, _, rfl⟩

lemma measured_measureDT {pending : PendingSend} : Measured f (f.measureDT cfg pending now) := by
  refine Measured.trans ?_ ⟨_, _, _, _, _, _, _, _, rfl⟩
  refine Measured.trans ?_ measured_updateRateControl
  split_ifs
  · exact Measured.refl
  · exact measured_updateRTT

/-- What an accepted Data packet does. -/
structure Accepted (cfg : ConsumerConfig) (f f' : FlowContext) (payload : List ℕ) (name : Name)
    (now : Time) : Prop where
  pending : name ∈ f.pendingSends
  unfinished : f.isFinished = false
  positive : 0 < extractSeqNum name
  unreceived : extractSeqNum name ∉ f.receivedSeqs
  valid : deserializeData payload = true
  flowPrefix : f'.flowPrefix = f.flowPrefix
  baseName : f'.baseName = f.baseName
  mode : f'.mode = f.mode
  pendingSends : f'.pendingSends = f.pendingSends.erase name
  totalBytes : f'.totalBytes = f.totalBytes + payload.length
  pktsReceivedTotal : f'.pktsReceivedTotal = f.pktsReceivedTotal + 1
  receivedSeqs : f'.receivedSeqs = insert (extractSeqNum name) f.receivedSeqs
  isFinished : f'.isFinished = decide (cfg.maxPackets ≤ f.pktsReceivedTotal + 1)
  doneCloses : f'.doneCloses
    = f.doneCloses + if cfg.maxPackets ≤ f.pktsReceivedTotal + 1 then 1 else 0
  retxQueued : f'.retxQueued = f.retxQueued.erase (extractSeqNum name)
  shadowLoss : f'.shadowLoss = f.shadowLoss.recordData (extractSeqNum name) now
  isPaused : f'.isPaused = f.isPaused
  stopPD : f'.stopPD = f.stopPD
  outstandingPD : f'.outstandingPD = f.outstandingPD
  rehearsalCount : f'.rehearsalCount = f.rehearsalCount
  pdFinished : f'.pdFinished = f.pdFinished

/-- **`OnData` during data transmission**: the packet is accepted, or it is ignored, or it only
clears what is left of a request that is over. -/
lemma onData_dt (cfg : ConsumerConfig) (hmode : f.mode = .dt) (payload : List ℕ) (name : Name)
    (now : Time) :
    (f.onData cfg payload name now).2 = true
        ∧ Accepted cfg f (f.onData cfg payload name now).1 payload name now
      ∨ f.onData cfg payload name now = (f, false)
      ∨ (f.isFinished = true ∨ extractSeqNum name ∈ f.receivedSeqs)
        ∧ ∃ queued, (queued = f.retxQueued ∨ f.isFinished = false
            ∧ queued = f.retxQueued.erase (extractSeqNum name))
          ∧ f.onData cfg payload name now = ({ f with
            pendingSends := f.pendingSends.erase name, retxQueued := queued }, false) := by
  rw [onData]
  split
  · exact .inr (.inl rfl)
  · rename_i pending hpending
    split_ifs with hfinished
    · exact .inr (.inr ⟨.inl hfinished, f.retxQueued, .inl rfl, rfl⟩)
    · have hunfinished : f.isFinished = false := by simpa using hfinished
      simp only [hmode, onDataDT]
      split_ifs with hreceived hpositive hvalid
      · refine .inr (.inr ⟨.inr hreceived, ?_⟩)
        rw [clearQueuedRetransmission]
        split_ifs
        · exact ⟨_, .inl rfl, rfl⟩
        · exact ⟨_, .inr ⟨hunfinished, rfl⟩, rfl⟩
      · exact .inr (.inl rfl)
      · exact .inr (.inl rfl)
      · refine .inl ⟨rfl, ?_⟩
        obtain ⟨history, srtt, rttVar, rto, sum, calibrated, base, window, heq⟩ :=
          measured_measureDT (f := f.completeDT cfg (extractSeqNum name) payload.length name now)
        rw [heq, completeDT, clearQueuedRetransmission, if_neg hpositive]
        exact {
          pending := AList.mem_iff_lookup.mpr ⟨pending, hpending⟩
          unfinished := hunfinished
          positive := not_le.mp hpositive
          unreceived := hreceived
          valid := by simpa using hvalid
          isFinished := by simp [hunfinished]
          flowPrefix := rfl, baseName := rfl, mode := rfl, pendingSends := rfl, totalBytes := rfl
          pktsReceivedTotal := rfl, receivedSeqs := rfl, doneCloses := rfl, retxQueued := rfl
          shadowLoss := rfl, isPaused := rfl, stopPD := rfl, outstandingPD := rfl
          rehearsalCount := rfl, pdFinished := rfl }

/-- A valid packet for a pending name is accepted, unless its sequence was received before. -/
lemma onData_dt_valid (hmode : f.mode = .dt) {payload : List ℕ} (hpending : name ∈ f.pendingSends)
    (hunfinished : f.isFinished = false) (hpositive : 0 < extractSeqNum name)
    (hunreceived : extractSeqNum name ∉ f.receivedSeqs) (hvalid : deserializeData payload = true) :
    (f.onData cfg payload name now).2 = true := by
  obtain ⟨pending, hlookup⟩ := AList.mem_iff_lookup.mp hpending
  simp [onData, hlookup, hunfinished, hmode, onDataDT, hunreceived, not_le.mpr hpositive, hvalid]

/-! ### Answers during path discovery -/

lemma pdTick_eq : ∃ rehearsal, f.pdTick.1 = { f with rehearsalCount := rehearsal } := by
  rw [pdTick]
  split_ifs <;> exact ⟨_, rfl⟩

/-- `checkPdState` changes the pause, the tier and the end of path discovery, and nothing else. -/
lemma checkPdState_eq (f : FlowContext) :
    ∃ finished tier paused base, f.checkPdState cfg = { f with
      pdFinished := finished, currentTier := tier, isPaused := paused, baseName := base } := by
  rw [checkPdState]
  split_ifs <;> exact ⟨_, _, _, _, rfl⟩

/-- A `DiscoveryPacket` changes the pause, the stop and the rehearsal, and nothing else. -/
lemma observeDiscovery_eq (f : FlowContext) (packet : DiscoveryPacket) :
    ∃ paused stop rehearsed count, f.observeDiscovery packet = { f with
      isPaused := paused, stopPD := stop, hasRehearsed := rehearsed, rehearsalCount := count } := by
  simp only [observeDiscovery]
  split_ifs <;> exact ⟨_, _, _, _, rfl⟩

/-- `f'` is `f` but for the flags of path discovery. -/
structure FlagsOnly (f f' : FlowContext) : Prop where
  mode : f'.mode = f.mode
  pendingSends : f'.pendingSends = f.pendingSends
  isFinished : f'.isFinished = f.isFinished
  shadowLoss : f'.shadowLoss = f.shadowLoss

lemma flagsOnly_checkPdState (cfg : ConsumerConfig) (f : FlowContext) :
    FlagsOnly f (f.checkPdState cfg) := by
  obtain ⟨finished, tier, paused, base, heq⟩ := checkPdState_eq f
  rw [heq]
  exact ⟨rfl, rfl, rfl, rfl⟩

lemma flagsOnly_observed (cfg : ConsumerConfig) (f : FlowContext) (packet : DiscoveryPacket) :
    FlagsOnly f ((f.observeDiscovery packet).checkPdState cfg) := by
  obtain ⟨paused, stop, rehearsed, count, heq⟩ := observeDiscovery_eq f packet
  have hflags := flagsOnly_checkPdState cfg (f.observeDiscovery packet)
  rw [heq] at hflags ⊢
  exact { hflags with }

/-- `OnData` during path discovery: ignored, or taken without the check of `checkPdState`, or
taken with it. -/
lemma onData_pd (hmode : f.mode = .pd) (hunfinished : f.isFinished = false) {payload : List ℕ} :
    name ∉ f.pendingSends ∧ f.onData cfg payload name now = (f, false)
      ∨ name ∈ f.pendingSends ∧ deserializeDiscovery payload = none
        ∧ f.onData cfg payload name now = (f.completePD name, false)
      ∨ name ∈ f.pendingSends ∧ ∃ packet, deserializeDiscovery payload = some packet
        ∧ f.onData cfg payload name now
          = (((f.completePD name).observeDiscovery packet).checkPdState cfg, true) := by
  rw [onData]
  split
  · rename_i hnone
    exact .inl ⟨AList.lookup_eq_none.mp hnone, rfl⟩
  · rename_i pending hlookup
    have hpending : name ∈ f.pendingSends := AList.mem_iff_lookup.mpr ⟨pending, hlookup⟩
    rw [if_neg (by simp [hunfinished])]
    simp only [hmode, onDataPD]
    split
    · rename_i hnone
      exact .inr (.inl ⟨hpending, hnone, rfl⟩)
    · rename_i packet hpacket
      exact .inr (.inr ⟨hpending, packet, hpacket, rfl⟩)

end FlowContext

/-! ### What a section can do -/

section Inversion

open FlowContext

/-- The sections of a flow that transfers data. -/
inductive DtStep (cfg : ConsumerConfig) (f : FlowContext) : FlowOp → FlowContext → Prop
  | quiet {op : FlowOp} (hquiet : op.quiet = true) (hframe : Frame f (flowStep cfg f op)) :
      DtStep cfg f op (flowStep cfg f op)
  | refused {name : Name} {seq : ℤ} {now : Time} {isRetransmission : Bool}
      (hover : f.isFinished = true ∨ seq ∈ f.receivedSeqs) :
      DtStep cfg f (.record name seq now isRetransmission) f
  | recorded {name : Name} {seq : ℤ} {now : Time} {isRetransmission : Bool}
      (hunfinished : f.isFinished = false) (hunreceived : seq ∉ f.receivedSeqs) :
      DtStep cfg f (.record name seq now isRetransmission) { f with
        pendingSends := f.pendingSends.insert name (f.sentEntry name now isRetransmission)
        shadowLoss := if isRetransmission then f.shadowLoss.recordRecoverySend seq
          else f.shadowLoss.recordFreshSend seq now
        maxInflight := max f.maxInflight
          (f.pendingSends.insert name (f.sentEntry name now isRetransmission)).size }
  | nack (name : Name) : DtStep cfg f (.nack name) f
  | timeout (name : Name) :
      DtStep cfg f (.timeout name) { f with pendingSends := f.pendingSends.erase name }
  | accepted {payload : List ℕ} {name : Name} {now : Time} {f' : FlowContext}
      (htrue : (f.onData cfg payload name now).2 = true)
      (hacc : Accepted cfg f f' payload name now) : DtStep cfg f (.data payload name now) f'
  | ignored {payload : List ℕ} {name : Name} {now : Time}
      (hfalse : (f.onData cfg payload name now).2 = false) :
      DtStep cfg f (.data payload name now) f
  | cleared {payload : List ℕ} {name : Name} {now : Time} {queued : Finset ℤ}
      (hfalse : (f.onData cfg payload name now).2 = false)
      (hover : f.isFinished = true ∨ extractSeqNum name ∈ f.receivedSeqs)
      (hqueued : queued = f.retxQueued
        ∨ f.isFinished = false ∧ queued = f.retxQueued.erase (extractSeqNum name)) :
      DtStep cfg f (.data payload name now)
        { f with pendingSends := f.pendingSends.erase name, retxQueued := queued }
  | pdTick (rehearsal : ℕ) : DtStep cfg f .pdTick { f with rehearsalCount := rehearsal }
  | switch (now : Time) : DtStep cfg f (.switch now) (f.switchToDT cfg now)

/-- The sections of a flow that discovers paths. -/
inductive PdStep (cfg : ConsumerConfig) (f : FlowContext) : FlowOp → FlowContext → Prop
  | quiet {op : FlowOp} (hquiet : op.quiet = true) (hframe : Frame f (flowStep cfg f op)) :
      PdStep cfg f op (flowStep cfg f op)
  | recorded (name : Name) (seq : ℤ) (now : Time) (isRetransmission : Bool) :
      PdStep cfg f (.record name seq now isRetransmission) { f with
        pendingSends := f.pendingSends.insert name (f.sentEntry name now isRetransmission)
        outstandingPD := f.outstandingPD + if isRetransmission then 0 else 1 }
  | nack (name : Name) : PdStep cfg f (.nack name) (f.completePD name)
  | timeout (name : Name) : PdStep cfg f (.timeout name) ((f.completePD name).checkPdState cfg)
  | ignored {payload : List ℕ} {name : Name} {now : Time} (hpending : name ∉ f.pendingSends) :
      PdStep cfg f (.data payload name now) f
  | undecodable {payload : List ℕ} {name : Name} {now : Time} (hpending : name ∈ f.pendingSends)
      (hnone : deserializeDiscovery payload = none) :
      PdStep cfg f (.data payload name now) (f.completePD name)
  | observed {payload : List ℕ} {name : Name} {now : Time} {packet : DiscoveryPacket}
      (hpending : name ∈ f.pendingSends) (hpacket : deserializeDiscovery payload = some packet) :
      PdStep cfg f (.data payload name now)
        (((f.completePD name).observeDiscovery packet).checkPdState cfg)
  | pdTick (rehearsal : ℕ) : PdStep cfg f .pdTick { f with rehearsalCount := rehearsal }
  | switch (now : Time) : PdStep cfg f (.switch now) (f.switchToDT cfg now)

variable {op : FlowOp}

lemma dtStep_flowStep (hmode : f.mode = .dt) : DtStep cfg f op (flowStep cfg f op) := by
  by_cases hquiet : op.quiet = true
  · exact .quiet hquiet (frame_of_quiet hquiet)
  · cases op with
    | record name seq now isRetransmission =>
      rw [flowStep, recordInterestSend_dt hmode]
      by_cases hover : f.isFinished ∨ seq ∈ f.receivedSeqs
      · rw [if_pos hover]
        exact .refused hover
      · rw [if_neg hover]
        rw [not_or] at hover
        exact .recorded (by simpa using hover.1) hover.2
    | nack name =>
      rw [flowStep, onNack_dt hmode]
      exact .nack name
    | timeout name =>
      rw [flowStep, onTimeout_dt hmode]
      exact .timeout name
    | data payload name now =>
      rw [flowStep]
      obtain ⟨htrue, hacc⟩ | heq | ⟨hover, queued, hqueued, heq⟩ :=
        onData_dt cfg hmode payload name now
      · exact .accepted htrue hacc
      · rw [heq]
        exact .ignored (by rw [heq])
      · rw [heq]
        exact .cleared (by rw [heq]) hover hqueued
    | pdTick =>
      obtain ⟨rehearsal, heq⟩ := f.pdTick_eq
      rw [flowStep, heq]
      exact .pdTick rehearsal
    | switch now => exact .switch now
    | _ => exact absurd rfl hquiet

lemma pdStep_flowStep (hmode : f.mode = .pd) (hunfinished : f.isFinished = false) :
    PdStep cfg f op (flowStep cfg f op) := by
  by_cases hquiet : op.quiet = true
  · exact .quiet hquiet (frame_of_quiet hquiet)
  · cases op with
    | record name seq now isRetransmission =>
      rw [flowStep, recordInterestSend_pd hmode]
      exact .recorded name seq now isRetransmission
    | nack name =>
      rw [flowStep, onNack, hmode]
      exact .nack name
    | timeout name =>
      rw [flowStep, onTimeout, hmode]
      exact .timeout name
    | data payload name now =>
      rw [flowStep]
      obtain ⟨hpending, heq⟩ | ⟨hpending, hnone, heq⟩ | ⟨hpending, packet, hpacket, heq⟩ :=
        onData_pd hmode hunfinished <;> rw [heq]
      · exact .ignored hpending
      · exact .undecodable hpending hnone
      · exact .observed hpending hpacket
    | pdTick =>
      obtain ⟨rehearsal, heq⟩ := f.pdTick_eq
      rw [flowStep, heq]
      exact .pdTick rehearsal
    | switch now => exact .switch now
    | _ => exact absurd rfl hquiet

/-- A flow that transfers data goes on to. -/
lemma DtStep.mode_eq {f' : FlowContext} (h : DtStep cfg f op f') (hmode : f.mode = .dt) :
    f'.mode = .dt := by
  cases h with
  | quiet hquiet hframe => exact hframe.mode.trans hmode
  | accepted htrue hacc => exact hacc.mode.trans hmode
  | switch now => rfl
  | _ => exact hmode

lemma mode_dt_flowRun (hmode : f.mode = .dt) {ops : List FlowOp} :
    (flowRun cfg f ops).mode = .dt :=
  Steps.run_invariant (I := fun f : FlowContext => f.mode = .dt)
    (fun _ _ hf => (dtStep_flowStep hf).mode_eq hf) hmode ops

/-- `f'` has the flags of path discovery of `f`. -/
structure SameFlags (f f' : FlowContext) : Prop where
  isPaused : f'.isPaused = f.isPaused
  stopPD : f'.stopPD = f.stopPD
  outstandingPD : f'.outstandingPD = f.outstandingPD
  pdFinished : f'.pdFinished = f.pdFinished

lemma Frame.sameFlags {f' : FlowContext} (h : Frame f f') : SameFlags f f' :=
  ⟨h.isPaused, h.stopPD, h.outstandingPD, h.pdFinished⟩

/-- Data transmission leaves the flags alone. -/
lemma DtStep.sameFlags {f' : FlowContext} (h : DtStep cfg f op f') : SameFlags f f' := by
  cases h with
  | quiet hquiet hframe => exact hframe.sameFlags
  | accepted htrue hacc => exact ⟨hacc.isPaused, hacc.stopPD, hacc.outstandingPD, hacc.pdFinished⟩
  | _ => exact ⟨rfl, rfl, rfl, rfl⟩

/-- A flow that discovers paths has not finished a transfer. -/
def Discovering (f : FlowContext) : Prop := f.mode = .pd → f.isFinished = false

/-- The sections of a flow, whatever its mode. -/
lemma flowStep_cases (h : Discovering f) :
    f.mode = .dt ∧ DtStep cfg f op (flowStep cfg f op)
      ∨ f.mode = .pd ∧ PdStep cfg f op (flowStep cfg f op) := by
  cases hmode : f.mode with
  | dt => exact .inl ⟨rfl, dtStep_flowStep hmode⟩
  | pd => exact .inr ⟨rfl, pdStep_flowStep hmode (h hmode)⟩

lemma discovering_step (h : Discovering f) : Discovering (flowStep cfg f op) := by
  obtain ⟨hmode, hstep⟩ | ⟨hmode, hstep⟩ := flowStep_cases h
  · intro hpd
    rw [hstep.mode_eq hmode] at hpd
    cases hpd
  · intro hpd
    have hunfinished := h hmode
    generalize flowStep cfg f op = f' at hstep hpd ⊢
    cases hstep with
    | quiet hquiet hframe => exact hframe.isFinished.trans hunfinished
    | timeout name =>
      exact (flagsOnly_checkPdState cfg (f.completePD name)).isFinished.trans hunfinished
    | @observed _ name _ packet =>
      exact (flagsOnly_observed cfg (f.completePD name) packet).isFinished.trans hunfinished
    | switch now => cases hpd
    | _ => exact hunfinished

end Inversion

end Mars
