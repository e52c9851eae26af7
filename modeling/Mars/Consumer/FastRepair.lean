import Mars.Consumer.Triggers

/-!
The books of the fast repairs.

The detector of a flow counts the fast repairs that it triggers, what becomes of them, and those
that were sent and resolved.  The counters are updated under two locks by several goroutines; an
analysis script checks them against each other and rejects a run if they do not agree.

* `fastRepairSummary`, `FastRepairSummaryLine.check`: what the consumer prints, and the checks of
  the script;
* `Resolving`: repairs are resolved only if they were queued, and after being sent only if they
  were sent;
* `Repairing`: repairs are sent only if they were queued, since a queued one leaves its mark with
  the active attempt;
* `Scanning`: every trigger has an outcome, but for those of a scan that is in progress;
* `fast_repair_exact`: the books agree in every run, and a fast repair leaves the transfer alone.
-/

namespace Mars

open FlowContext ShadowLossDetector Nat List Mars.Core Consumer Steps AList

variable {cfg : ConsumerConfig} {f : FlowContext} {d d' : ShadowLossDetector} {op : FlowOp} {k : ℤ}
  {i : ℕ} {s : Consumer} {e : ConsumerEvent} {candidate : ShadowFastRepairCandidate} {name : Name}
  {now : Time} {candidates : List ShadowFastRepairCandidate}

/-! ### The summary and its analysis -/

/-- `ShadowFastRepairSummary`. -/
structure ShadowFastRepairSummary where
  ageFloor : Time
  laterACKThreshold : ℕ
  triggers : ℕ
  queued : ℕ
  alreadyQueued : ℕ
  alreadyTriggered : ℕ
  stale : ℕ
  sent : ℕ
  resolved : ℕ
  resolvedAfterSend : ℕ
  deriving DecidableEq, Repr

/-- `fastRepairSummaryLocked`. -/
def ShadowLossDetector.fastRepairSummary (d : ShadowLossDetector) : ShadowFastRepairSummary where
  ageFloor := shadowFastRepairAgeFloor
  laterACKThreshold := shadowFastRepairLaterACKThreshold
  triggers := d.fastRepairTriggers
  queued := d.fastRepairQueued
  alreadyQueued := d.fastRepairAlreadyQueued
  alreadyTriggered := d.fastRepairAlreadyTriggered
  stale := d.fastRepairStale
  sent := d.fastRepairSent
  resolved := d.fastRepairResolved
  resolvedAfterSend := d.fastRepairResolvedAfterSend

/-- The fields of a line `Shadow Fast Repair Summary`. -/
structure FastRepairSummaryLine where
  behavioralRetransmission : Bool
  ageFloorMs : ℤ
  laterAckThreshold : ℤ
  maxPerGeneration : ℤ
  usesUnifiedPacing : Bool
  rateBackoff : Bool
  cwndBackoff : Bool
  rtoOuterMultiplier : Option ℤ
  triggers : ℤ
  queued : ℤ
  alreadyQueued : ℤ
  alreadyTriggered : ℤ
  stale : ℤ
  sent : ℤ
  resolved : ℤ
  resolvedAfterSend : ℤ
  deriving DecidableEq, Repr

/-- The line that the consumer prints for a flow at the end. -/
def ShadowFastRepairSummary.line (summary : ShadowFastRepairSummary) : FastRepairSummaryLine where
  behavioralRetransmission := true
  ageFloorMs := summary.ageFloor / millisecond
  laterAckThreshold := summary.laterACKThreshold
  maxPerGeneration := 1
  usesUnifiedPacing := true
  rateBackoff := false
  cwndBackoff := false
  rtoOuterMultiplier := some 1
  triggers := summary.triggers
  queued := summary.queued
  alreadyQueued := summary.alreadyQueued
  alreadyTriggered := summary.alreadyTriggered
  stale := summary.stale
  sent := summary.sent
  resolved := summary.resolved
  resolvedAfterSend := summary.resolvedAfterSend

namespace FastRepairSummaryLine

variable (line : FastRepairSummaryLine)

def outcomes : ℤ := line.queued + line.alreadyQueued + line.alreadyTriggered + line.stale

def counters : List ℤ :=
  [line.triggers, line.queued, line.alreadyQueued, line.alreadyTriggered, line.stale, line.sent,
    line.resolved, line.resolvedAfterSend]

/-- The checks of `parse_fast_repair_summary_line`, once the fields are read. -/
def check : Except String Unit :=
  if line.behavioralRetransmission = false then
    .error "behavioralRetransmission must be true"
  else if line.usesUnifiedPacing = false then .error "usesUnifiedPacing must be true"
  else if line.rateBackoff = true then .error "rateBackoff must be false"
  else if line.cwndBackoff = true then .error "cwndBackoff must be false"
  else if line.ageFloorMs ≠ 350 ∨ line.laterAckThreshold ≠ 8 then
    .error "unexpected fast-repair threshold"
  else if line.maxPerGeneration ≠ 1 then .error "maxPerGeneration must be 1"
  else if line.counters.any (fun value => value < 0) then
    .error "counters must be non-negative"
  else if line.outcomes ≠ line.triggers then
    .error ("queue outcomes " ++ toString line.outcomes ++ " != triggers "
      ++ toString line.triggers)
  else if line.sent > line.queued then .error "sent exceeds queued"
  else if line.resolved > line.queued then .error "resolved exceeds queued"
  else if line.resolvedAfterSend > line.sent ∨ line.resolvedAfterSend > line.resolved then
    .error "resolvedAfterSend exceeds sent or resolved"
  else if line.rtoOuterMultiplier.any (fun value => value ≠ 1) then
    .error "rtoOuterMultiplier must be 1"
  else .ok ()

variable {line}

lemma check_eq_ok
    (hflags : line.behavioralRetransmission = true ∧ line.usesUnifiedPacing = true
      ∧ line.rateBackoff = false ∧ line.cwndBackoff = false)
    (hthreshold : line.ageFloorMs = 350 ∧ line.laterAckThreshold = 8 ∧ line.maxPerGeneration = 1)
    (hcounters : ∀ value ∈ line.counters, 0 ≤ value) (houtcomes : line.outcomes = line.triggers)
    (hsent : line.sent ≤ line.queued) (hresolved : line.resolved ≤ line.queued)
    (hafter : line.resolvedAfterSend ≤ line.sent ∧ line.resolvedAfterSend ≤ line.resolved)
    (hrto : line.rtoOuterMultiplier = some 1) : line.check = .ok () := by
  have hnonneg : line.counters.any (fun value => value < 0) = false := by
    simpa using hcounters
  simp [check, hflags, hthreshold, hnonneg, houtcomes, hsent.not_gt, hresolved.not_gt,
    hafter.1.not_gt, hafter.2.not_gt, hrto]

end FastRepairSummaryLine

/-- The numbers of outcomes that were recorded. -/
def ShadowLossDetector.outcomes (d : ShadowLossDetector) : ℕ :=
  d.fastRepairQueued + d.fastRepairAlreadyQueued + d.fastRepairAlreadyTriggered + d.fastRepairStale

lemma check_line (houtcomes : d.fastRepairTriggers = d.outcomes)
    (hsent : d.fastRepairSent ≤ d.fastRepairQueued)
    (hresolved : d.fastRepairResolved ≤ d.fastRepairQueued)
    (hafter : d.fastRepairResolvedAfterSend ≤ min d.fastRepairSent d.fastRepairResolved) :
    d.fastRepairSummary.line.check = .ok () := by
  rw [le_min_iff] at hafter
  refine FastRepairSummaryLine.check_eq_ok ⟨rfl, rfl, rfl, rfl⟩ ⟨rfl, rfl, rfl⟩ ?_ ?_
    (Int.ofNat_le.mpr hsent) (Int.ofNat_le.mpr hresolved)
    ⟨Int.ofNat_le.mpr hafter.1, Int.ofNat_le.mpr hafter.2⟩ rfl
  · simp [FastRepairSummaryLine.counters, ShadowFastRepairSummary.line, fastRepairSummary]
  · simp only [FastRepairSummaryLine.outcomes, ShadowFastRepairSummary.line,
      fastRepairSummary, houtcomes, outcomes]
    push_cast
    rfl

/-! ### Repairs that were resolved -/

/-- A repair that is resolved was queued, and one that is resolved after being sent was sent. -/
structure Resolving (d : ShadowLossDetector) : Prop where
  resolved : d.fastRepairResolved + d.pending.count (fun _ p => p.fastRepairQueuedGeneration != 0)
    ≤ d.fastRepairQueued
  afterSend : d.fastRepairResolvedAfterSend + d.pending.count (fun _ p => p.fastRepairSent)
    ≤ d.fastRepairSent
  le : d.fastRepairResolvedAfterSend ≤ d.fastRepairResolved

namespace Resolving

/-- What became of the repairs of the watched sequences may change with the counters. -/
lemma of_count_le (h : Resolving d) (hresolved : d'.fastRepairResolved = d.fastRepairResolved)
    (hafter : d'.fastRepairResolvedAfterSend = d.fastRepairResolvedAfterSend)
    {m n : ℕ} (hqueued : d'.fastRepairQueued = d.fastRepairQueued + m)
    (hsent : d'.fastRepairSent = d.fastRepairSent + n)
    (hcount : d'.pending.count (fun _ p => p.fastRepairQueuedGeneration != 0)
      ≤ d.pending.count (fun _ p => p.fastRepairQueuedGeneration != 0) + m)
    (hcount' : d'.pending.count (fun _ p => p.fastRepairSent)
      ≤ d.pending.count (fun _ p => p.fastRepairSent) + n) : Resolving d' := by
  obtain ⟨h₁, h₂, h₃⟩ := h
  exact ⟨by omega, by omega, by omega⟩

/-- The watched sequences may change but for what became of their repairs. -/
lemma mapVals (h : Resolving d) {g : ℤ → ShadowPendingSequence → ShadowPendingSequence}
    (hg : ∀ k p, (g k p).fastRepairQueuedGeneration = p.fastRepairQueuedGeneration
      ∧ (g k p).fastRepairSent = p.fastRepairSent) :
    Resolving { d with pending := d.pending.mapVals g } := by
  refine h.of_count_le (m := 0) (n := 0) rfl rfl rfl rfl ?_ ?_
  · simp only [count_mapVals, hg]
    exact le_rfl
  · simp only [count_mapVals, hg]
    exact le_rfl

variable {g : ShadowPendingSequence → ShadowPendingSequence} {seq : ℤ}

lemma modify (h : Resolving d)
    (hg : ∀ p, (g p).fastRepairQueuedGeneration = p.fastRepairQueuedGeneration
      ∧ (g p).fastRepairSent = p.fastRepairSent) :
    Resolving { d with pending := d.pending.modify seq g } := by
  refine h.mapVals fun k p => ?_
  split_ifs
  · exact hg p
  · exact ⟨rfl, rfl⟩

lemma count_modify_eq {p : ShadowPendingSequence → Bool} (hg : ∀ v, p (g v) = p v)
    {m : FinMap ℤ ShadowPendingSequence} :
    (m.modify seq g).count (fun _ v => p v) = m.count fun _ v => p v := by
  rw [AList.modify, AList.count_mapVals]
  congr 1
  funext k v
  split_ifs
  · exact hg v
  · rfl

lemma count_modify_le {p : ℤ → ShadowPendingSequence → Bool} {m : FinMap ℤ ShadowPendingSequence} :
    (m.modify seq g).count p ≤ m.count p + 1 := by
  have hcount := count_modify p seq g m
  have hle := Bool.toNat_le (m.holdsAt (fun k v => p k (g v)) seq)
  omega

section

variable (h : Resolving d)
include h

lemma recordFreshSend : Resolving (d.recordFreshSend seq now) := by
  rw [ShadowLossDetector.recordFreshSend]
  split_ifs
  · exact h
  · exact h.of_count_le (m := 0) (n := 0) rfl rfl rfl rfl count_insert_le count_insert_le

omit h in
lemma install (h : Resolving f.shadowLoss) {generation : ℕ} {isFastRepair : Bool} :
    Resolving (f.installShadowAttempt seq generation isFastRepair) := by
  obtain ⟨g, heq, hg⟩ := installShadowAttempt_eq
  rw [heq]
  refine h.of_count_le (m := 0) (n := isFastRepair.toNat) rfl rfl rfl rfl ?_ ?_
  · refine (count_modify_eq (p := fun v => v.fastRepairQueuedGeneration != 0) (fun p => ?_)).le
    rw [(hg p).2.2.1]
  · cases isFastRepair with
    | true => exact count_modify_le
    | false =>
      exact (count_modify_eq (p := fun v => v.fastRepairSent) (fun p => (hg p).2.2.2 rfl)).le

lemma recordFastRepairQueueOutcome {outcome : ShadowFastRepairQueueOutcome} :
    Resolving (d.recordFastRepairQueueOutcome candidate outcome) := by
  cases outcome with
  | queued =>
    rw [ShadowLossDetector.recordFastRepairQueueOutcome]
    refine h.of_count_le (m := 1) (n := 0) rfl rfl rfl rfl ?_ ?_
    · dsimp only
      exact count_modify_le
    · dsimp only
      rw [count_modify_eq (p := fun v => v.fastRepairSent) fun p => ?_]
      · exact le_rfl
      · split_ifs <;> rfl
  | _ => exact { h with }

lemma resolve : Resolving (d.resolve seq now) := by
  rw [ShadowLossDetector.resolve]
  split
  · rename_i p hp
    obtain ⟨hresolved, hafter, hle⟩ := h
    have hqueued := count_erase
      (fun _ (p : ShadowPendingSequence) => p.fastRepairQueuedGeneration != 0) seq d.pending
    have hsent := count_erase (fun _ (p : ShadowPendingSequence) => p.fastRepairSent) seq
      d.pending
    simp only [holdsAt, hp, Option.any_some] at hqueued hsent
    -- the repair of the sequence leaves the counts and enters the counters
    by_cases hgen : p.fastRepairQueuedGeneration = 0
    · simp only [hgen, bne_self_eq_false, Bool.toNat_false] at hqueued
      refine ⟨?_, ?_, ?_⟩ <;> simp only [hgen, ne_eq, not_true_eq_false, false_and, if_false] <;>
        omega
    · rw [bne_iff_ne.mpr hgen, Bool.toNat_true] at hqueued
      cases hs : p.fastRepairSent with
      | true =>
        simp only [hs, Bool.toNat_true] at hsent
        refine ⟨?_, ?_, ?_⟩ <;>
          simp only [hgen, ne_eq, not_false_eq_true, true_and, if_true] <;> omega
      | false =>
        refine ⟨?_, ?_, ?_⟩ <;>
          simp only [hgen, ne_eq, not_false_eq_true, true_and, if_true, Bool.false_eq_true,
            if_false] <;> omega
  · exact h

lemma recordData : Resolving (d.recordData seq now) := by
  refine h.resolve.mapVals fun k p => ?_
  split_ifs <;> exact ⟨rfl, rfl⟩

lemma scanIfDue : Resolving (d.scanIfDue now).1 := by
  rw [ShadowLossDetector.scanIfDue]
  split_ifs
  · exact h
  · have hmap : Resolving { d with pending := d.pending.mapVals fun _ p =>
        if (p.repairDue now : Bool) then p.trigger else p } := by
      refine h.mapVals fun k p => ?_
      split_ifs <;> exact ⟨rfl, rfl⟩
    exact { hmap with }

end

end Resolving

lemma resolving_step (h : Resolving f.shadowLoss) (hstep : ShadowStep f op d' candidates) :
    Resolving d' := by
  cases hstep with
  | same => exact h
  | fresh => exact h.recordFreshSend
  | recover => exact h.modify fun _ => ⟨rfl, rfl⟩
  | install => exact h.install
  | @rto seq now =>
    have hmodify : Resolving { f.shadowLoss with
        pending := f.shadowLoss.pending.modify seq fun p => { p with inRecovery := true } } :=
      h.modify fun _ => ⟨rfl, rfl⟩
    exact { hmodify with }
  | outcome => exact h.recordFastRepairQueueOutcome
  | scan => exact h.scanIfDue
  | data => exact h.recordData
  | switch => exact ⟨le_rfl, le_rfl, le_rfl⟩

/-! ### Counters -/

/-- Whether a section installs the attempt of a fast repair. -/
def FlowOp.sendsRepair : FlowOp → Bool
  | .install _ _ isFastRepair => isFastRepair
  | _ => false

/-- Whether a section queues a fast repair. -/
def FlowOp.queuesRepair (f : FlowContext) (op : FlowOp) : Bool :=
  (op.outcome f).any fun o => o.2 = .queued

/-- What a section does to the counters, if it does not reset them. -/
structure Counts (f : FlowContext) (op : FlowOp) (d : ShadowLossDetector) (n : ℕ) : Prop where
  triggers : d.fastRepairTriggers = f.shadowLoss.fastRepairTriggers + n
  outcomes : d.outcomes = f.shadowLoss.outcomes + (op.outcome f).isSome.toNat
  queued : d.fastRepairQueued = f.shadowLoss.fastRepairQueued + (op.queuesRepair f).toNat
  sent : d.fastRepairSent ≤ f.shadowLoss.fastRepairSent + op.sendsRepair.toNat

/-- A detector with the counters of the old one. -/
lemma Counts.of_eq (hop : op.outcome f = none)
    (htriggers : d.fastRepairTriggers = f.shadowLoss.fastRepairTriggers)
    (houtcomes : d.outcomes = f.shadowLoss.outcomes)
    (hqueued : d.fastRepairQueued = f.shadowLoss.fastRepairQueued)
    (hsent : d.fastRepairSent ≤ f.shadowLoss.fastRepairSent + op.sendsRepair.toNat) :
    Counts f op d 0 := by
  refine ⟨htriggers, ?_, ?_, hsent⟩
  · rw [houtcomes, hop]
    rfl
  · rw [hqueued, FlowOp.queuesRepair, hop]
    rfl

lemma counts_install {seq : ℤ} {generation : ℕ} {isFastRepair : Bool} :
    Counts f (.install seq generation isFastRepair)
      (f.installShadowAttempt seq generation isFastRepair) 0 := by
  obtain ⟨g, heq, -⟩ := installShadowAttempt_eq
  rw [heq]
  exact .of_eq rfl rfl rfl rfl le_rfl

lemma counts_outcome {outcome : ShadowFastRepairQueueOutcome}
    (hop : op.outcome f = some (candidate, outcome)) :
    Counts f op (f.shadowLoss.recordFastRepairQueueOutcome candidate outcome) 0 := by
  have hqueues : op.queuesRepair f = decide (outcome = .queued) := by
    rw [FlowOp.queuesRepair, hop]
    rfl
  cases outcome <;> refine ⟨rfl, ?_, ?_, le_add_right _ _⟩ <;>
    simp only [ShadowLossDetector.recordFastRepairQueueOutcome, ShadowLossDetector.outcomes, hop,
      hqueues, Option.isSome_some, Bool.toNat_true, decide_true, reduceCtorEq, decide_false,
      Bool.toNat_false, add_zero] <;> omega

lemma counts_scan :
    Counts f (.scan now) (f.shadowLoss.scanIfDue now).1 (f.shadowLoss.scanIfDue now).2.length := by
  rw [ShadowLossDetector.scanIfDue]
  split_ifs
  · exact .of_eq rfl rfl rfl rfl (le_add_right _ _)
  · refine ⟨?_, rfl, rfl, le_add_right _ _⟩
    rw [ShadowLossDetector.scanPending, List.length_insertionSort]

lemma ShadowStep.counts (h : ShadowStep f op d candidates) :
    (∃ now, op = .switch now) ∧ d = {} ∨ Counts f op d candidates.length := by
  cases h with
  | same hop => exact .inr (.of_eq hop rfl rfl rfl (le_add_right _ _))
  | @fresh _ seq now =>
    rw [ShadowLossDetector.recordFreshSend]
    split_ifs <;> exact .inr (.of_eq rfl rfl rfl rfl (le_add_right _ _))
  | recover | rto => exact .inr (.of_eq rfl rfl rfl rfl (le_add_right _ _))
  | install => exact .inr counts_install
  | outcome hop => exact .inr (counts_outcome hop)
  | scan => exact .inr counts_scan
  | @data _ name now =>
    rw [ShadowLossDetector.recordData, ShadowLossDetector.resolve]
    split <;> exact .inr (.of_eq rfl rfl rfl rfl (le_add_right _ _))
  | switch => exact .inl ⟨⟨_, rfl⟩, rfl⟩

/-! ### Scans -/

/-- What an event means for the scan of flow `i`. -/
inductive ScanMoves (s : Consumer) (i : ℕ) : Option CoreOp → List ShadowFastRepairCandidate → Prop
  | scan (now : Time) (hidle : s.driver.scans i = []) :
      ScanMoves s i (some (.onFlow i (.scan now))) ((s.core.flows i).runShadowLossScan now).2
  | repair {candidate : ShadowFastRepairCandidate} {rest : List ShadowFastRepairCandidate}
      (name : Name) (hscan : s.driver.scans i = candidate :: rest) (hlock : s.core.lock = .free) :
      ScanMoves s i (some (.queueShadowFastRepairIfCurrent name candidate i)) rest
  | other {op : Option CoreOp} (hop : ∀ fop, op = some (.onFlow i fop) → fop.repairs = false)
      (hrepair : ∀ name candidate, op ≠ some (.queueShadowFastRepairIfCurrent name candidate i)) :
      ScanMoves s i op (s.driver.scans i)

lemma Consumer.Moves.scan_cases {m : ConsumerMove} (h : s.Moves cfg e m) (i : ℕ) :
    ScanMoves s i m.op (m.driver.scans i) := by
  cases h with
  | sender hstep =>
    refine .other (fun fop hop => ?_) fun name candidate hop => ?_
    · cases hstep <;> cases hop <;> rfl
    · cases hstep <;> cases hop
  | @scan j now hidle =>
    simp only
    by_cases hij : i = j
    · subst hij
      rw [Function.update_self]
      exact .scan now hidle
    · rw [Function.update_of_ne hij]
      refine .other (fun fop hop => ?_) fun name candidate hop => ?_
      · cases hop
        exact absurd rfl hij
      · cases hop
  | @repair j candidate rest hscan hlock =>
    simp only
    by_cases hij : i = j
    · subst hij
      rw [Function.update_self]
      exact .repair _ hscan hlock
    · rw [Function.update_of_ne hij]
      refine .other (fun fop hop => ?_) fun name candidate hop => ?_
      · cases hop
      · cases hop
        exact hij rfl
  | _ =>
    refine .other (fun fop hop => ?_) fun name candidate hop => ?_
    · cases hop <;> rfl
    · cases hop

/-- The sections of a flow whose scan an event leaves alone. -/
lemma ScanMoves.sections_other
    (hop : ∀ fop, (s.move cfg e).op = some (.onFlow i fop) → fop.repairs = false)
    (hrepair : ∀ name candidate,
      (s.move cfg e).op ≠ some (.queueShadowFastRepairIfCurrent name candidate i)) :
    ∀ fop ∈ s.sections cfg i e, fop.repairs = false := by
  intro fop hfop
  obtain ⟨op, hmove, rfl, hmem⟩ := mem_sections hfop
  rcases (s.core.moves op).mem_ops hmem with heq | ⟨-, hasked⟩ | ⟨_, _, _, _, _, -, -, rfl⟩
  · exact hop fop (hmove.trans (congrArg some heq))
  · refine Bool.eq_false_iff.mpr fun hrepairs => ?_
    obtain ⟨name, candidate, heq⟩ := hasked hrepairs
    exact hrepair name candidate (hmove.trans (congrArg some heq))
  · rfl

/-- A candidate gets its outcome by one section. -/
lemma Core.repairMove_spec (c : Core) (name : Name) (candidate : ShadowFastRepairCandidate)
    (flow : ℕ) :
    (c.queueShadowFastRepairIfCurrentMove name candidate flow).flow = flow
      ∧ ∃ fop outcome, (c.queueShadowFastRepairIfCurrentMove name candidate flow).ops = [fop]
        ∧ fop.outcome (c.flows flow) = some (candidate, outcome) := by
  rw [queueShadowFastRepairIfCurrentMove]
  split
  · exact ⟨rfl, _, _, rfl, rfl⟩
  · split_ifs
    · exact ⟨rfl, _, _, rfl, rfl⟩
    · exact ⟨rfl, _, _, rfl, rfl⟩

lemma sections_repair
    (hop : (s.move cfg e).op = some (.queueShadowFastRepairIfCurrent name candidate i))
    (hlock : s.core.lock = .free) :
    ∃ fop outcome, s.sections cfg i e = [fop]
      ∧ fop.outcome (s.core.flows i) = some (candidate, outcome) := by
  obtain ⟨hflow, fop, outcome, hops, houtcome⟩ := s.core.repairMove_spec name candidate i
  have hmove : s.core.move (.queueShadowFastRepairIfCurrent name candidate i)
      = s.core.queueShadowFastRepairIfCurrentMove name candidate i := by
    simp only [Core.move, hlock, ne_eq, not_true_eq_false, if_false]
  refine ⟨fop, outcome, ?_, houtcome⟩
  rw [Consumer.sections, hop]
  simp only [hmove, hflow, hops, if_true]

/-- Every trigger has an outcome, but for those of the scan in progress. -/
structure Scanning (i : ℕ) (s : Consumer) : Prop where
  idle : (s.core.flows i).mode = .pd → s.driver.scans i = []
  books : (s.core.flows i).shadowLoss.fastRepairTriggers
    = (s.core.flows i).shadowLoss.outcomes + (s.driver.scans i).length

/-- A switch is asked for, and only from path discovery. -/
lemma Owned.switch_section (h : Owned cfg s) (hsection : .switch now ∈ s.sections cfg i e) :
    (s.core.flows i).mode = .pd := by
  obtain ⟨op, hop, rfl, hmem⟩ := mem_sections hsection
  rcases (s.core.moves op).mem_ops hmem with heq | ⟨hbooks, -⟩ | ⟨_, _, _, _, _, -, -, heq⟩
  · exact ((s.moves cfg e).switch h (hop.trans (congrArg some heq))).1
  · cases hbooks
  · cases heq

/-- The mode before a step that ends in path discovery. -/
lemma mode_pd_of_consumerStep (h : ((consumerStep cfg s e).core.flows i).mode = .pd) :
    (s.core.flows i).mode = .pd := by
  cases hmode : (s.core.flows i).mode with
  | pd => rfl
  | dt =>
    cases h.symm.trans (mode_dt_consumerStep i hmode)

lemma candidates_of_outcome {o : ShadowFastRepairCandidate × ShadowFastRepairQueueOutcome}
    (h : op.outcome f = some o) : op.candidates f = [] := by
  cases op <;> first | rfl | cases h

/-- The section of a scan or of a repair. -/
lemma counts_flowStep (cfg : ConsumerConfig) (op : FlowOp) (hdiscovering : Discovering f)
    (hop : ∀ now, op ≠ .switch now) :
    Counts f op (flowStep cfg f op).shadowLoss (op.candidates f).length := by
  rcases (shadowStep_flowStep hdiscovering op).counts with ⟨⟨now, heq⟩, -⟩ | hcounts
  · exact absurd heq (hop now)
  · exact hcounts

/-- The sections of a flow whose scan goes on. -/
lemma books_step {n : ℕ} (f : FlowContext) (op : FlowOp)
    (h : Discovering f ∧ f.shadowLoss.fastRepairTriggers = f.shadowLoss.outcomes + n)
    (hop : op.repairs = false ∧ ∀ now, op = .switch now → n = 0) :
    Discovering (flowStep cfg f op)
      ∧ (flowStep cfg f op).shadowLoss.fastRepairTriggers
        = (flowStep cfg f op).shadowLoss.outcomes + n := by
  refine ⟨discovering_step h.1, ?_⟩
  have houtcome : op.outcome f = none := by
    cases op <;> first | rfl | cases hop.1
  have hcandidates : op.candidates f = [] := by
    cases op <;> first | rfl | cases hop.1
  rcases (shadowStep_flowStep h.1 op).counts with ⟨⟨now, rfl⟩, heq⟩ | hcounts
  · rw [heq, hop.2 now rfl]
    rfl
  · have houtcomes := hcounts.outcomes
    rw [houtcome] at houtcomes
    rw [hcounts.triggers, hcandidates, houtcomes, h.2]
    rfl

lemma scanning_step (howned : Owned cfg s) (h : Scanning i s) (e : ConsumerEvent) :
    Scanning i (consumerStep cfg s e) := by
  have hdiscovering := howned.core.discovering i
  have hcases := (s.moves cfg e).scan_cases i
  have hidle : ((consumerStep cfg s e).core.flows i).mode = .pd → s.driver.scans i = [] :=
    fun hmode => h.idle (mode_pd_of_consumerStep hmode)
  have hscans : (consumerStep cfg s e).driver.scans i = (s.move cfg e).driver.scans i := rfl
  rw [← hscans] at hcases
  generalize hnew : (consumerStep cfg s e).driver.scans i = scans at hcases
  generalize hop : (s.move cfg e).op = op at hcases
  cases hcases with
  | scan now hscan =>
    have hcounts := counts_flowStep cfg (.scan now) hdiscovering nofun
    refine ⟨fun hmode => ?_, ?_⟩
    · rw [hnew, runShadowLossScan, if_pos]
      rw [mode_pd_of_consumerStep hmode]
      exact .inl (by decide)
    · have hbooks := h.books
      rw [hscan, List.length_nil, add_zero] at hbooks
      have houtcomes := hcounts.outcomes
      rw [flows_onFlow hop, hnew, hcounts.triggers, houtcomes, hbooks]
      rfl
  | @repair candidate rest name hscan hlock =>
    obtain ⟨fop, outcome, hsections, houtcome⟩ := sections_repair hop hlock
    have hcounts := counts_flowStep cfg fop hdiscovering fun now heq => by
      rw [heq] at houtcome
      cases houtcome
    refine ⟨fun hmode => ?_, ?_⟩
    · have hnil := hidle hmode
      rw [hscan] at hnil
      cases hnil
    · have houtcomes := hcounts.outcomes
      have hbooks := h.books
      have hstep : (consumerStep cfg s e).core.flows i = flowStep cfg (s.core.flows i) fop := by
        rw [flows_consumerStep, hsections]
        rfl
      rw [houtcome] at houtcomes
      rw [hscan, List.length_cons] at hbooks
      rw [hstep, hnew, hcounts.triggers, houtcomes, candidates_of_outcome houtcome]
      simp only [List.length_nil, Option.isSome_some, Bool.toNat_true]
      omega
  | other hother hrepair =>
    refine ⟨fun hmode => hnew.trans (hidle hmode), ?_⟩
    rw [hnew]
    refine (flow_step (I := fun f => Discovering f ∧ f.shadowLoss.fastRepairTriggers
      = f.shadowLoss.outcomes + (s.driver.scans i).length) books_step ⟨hdiscovering, h.books⟩
      (Steps.guarded_of_forall_mem (fun fop hfop _ => ⟨?_, ?_⟩) _)).2
    · exact ScanMoves.sections_other (hop ▸ hother) (hop ▸ hrepair) fop hfop
    · rintro now rfl
      rw [h.idle (howned.switch_section hfop)]
      rfl

/-! ### Repairs that were sent -/

/-- The number of active attempts of flow `i` whose fast repair is queued. -/
def Core.flagged (c : Core) (i : ℕ) : ℕ :=
  c.ctl.active.count fun _ a => a.flow = i && a.fastRepairQueued

/-- A repair that is sent was queued. -/
structure Repairing (i : ℕ) (c : Core) : Prop where
  idle : (c.flows i).mode = .pd → c.flagged i = 0
  sent : (c.flows i).shadowLoss.fastRepairSent + c.flagged i
    ≤ (c.flows i).shadowLoss.fastRepairQueued

/-- Whether a section can only add to the repairs that were queued. -/
def FlowOp.queuesOnly : FlowOp → Bool
  | .install _ _ _ | .switch _ => false
  | _ => true

lemma queuesOnly_step {m n : ℕ} (f : FlowContext) (op : FlowOp)
    (h : Discovering f ∧ f.shadowLoss.fastRepairSent ≤ m ∧ n ≤ f.shadowLoss.fastRepairQueued)
    (hop : op.queuesOnly = true) :
    Discovering (flowStep cfg f op) ∧ (flowStep cfg f op).shadowLoss.fastRepairSent ≤ m
      ∧ n ≤ (flowStep cfg f op).shadowLoss.fastRepairQueued := by
  have hswitch : ∀ now, op ≠ .switch now := by
    rintro now rfl
    cases hop
  have hsends : op.sendsRepair = false := by
    cases op <;> first | rfl | cases hop
  have hcounts := counts_flowStep cfg op h.1 hswitch
  have hsent := hcounts.sent
  have hqueued := hcounts.queued
  rw [hsends, Bool.toNat_false] at hsent
  exact ⟨discovering_step h.1, by omega, by omega⟩

variable {c : Core} {m : CoreMove}

section

variable (h : Repairing i c)
include h

/-- A move by which no more attempts are marked, and no repair is sent. -/
lemma Repairing.apply (hdiscovering : Discovering (c.flows i))
    (hflagged : (c.apply cfg m).flagged i ≤ c.flagged i)
    (hops : m.flow = i → ∀ fop ∈ m.ops, fop.queuesOnly = true) : Repairing i (c.apply cfg m) := by
  have hflow : (((c.apply cfg m).flows i).mode = .pd → (c.flows i).mode = .pd)
      ∧ ((c.apply cfg m).flows i).shadowLoss.fastRepairSent
        ≤ (c.flows i).shadowLoss.fastRepairSent
      ∧ (c.flows i).shadowLoss.fastRepairQueued
        ≤ ((c.apply cfg m).flows i).shadowLoss.fastRepairQueued := by
    rw [Core.apply_flows]
    split_ifs with hi
    · refine ⟨fun hpd => ?_, ?_⟩
      · cases hmode : (c.flows i).mode with
        | pd => rfl
        | dt =>
          cases hpd.symm.trans (mode_dt_flowRun hmode)
      · exact (guarded_invariant (I := fun f : FlowContext => Discovering f
            ∧ f.shadowLoss.fastRepairSent ≤ (c.flows i).shadowLoss.fastRepairSent
            ∧ (c.flows i).shadowLoss.fastRepairQueued ≤ f.shadowLoss.fastRepairQueued)
          queuesOnly_step ⟨hdiscovering, le_rfl, le_rfl⟩
          (guarded_of_forall_mem (fun fop hfop _ => hops hi.symm fop hfop) _)).2
    · exact ⟨id, le_rfl, le_rfl⟩
  obtain ⟨hmode, hsent, hqueued⟩ := hflow
  have hbooks := h.sent
  exact ⟨fun hpd => le_zero.mp (hflagged.trans (h.idle (hmode hpd)).le), by omega⟩

/-- A move with one section on the flow. -/
lemma Repairing.section (hdiscovering : Discovering (c.flows i)) {fop : FlowOp}
    (hflow : m.flow = i) (hops : m.ops = [fop]) (hstays : fop.stays)
    (hidle : (c.flows i).mode = .pd → (c.apply cfg m).flagged i = 0)
    (hmark : fop.sendsRepair.toNat + (c.apply cfg m).flagged i
      ≤ c.flagged i + (fop.queuesRepair (c.flows i)).toNat) : Repairing i (c.apply cfg m) := by
  have hflows : (c.apply cfg m).flows i = flowStep cfg (c.flows i) fop := by
    rw [Core.apply_flows, if_pos hflow.symm, hops]
    rfl
  have hcounts := counts_flowStep cfg fop hdiscovering hstays
  refine ⟨fun hpd => hidle ?_, ?_⟩
  · rwa [hflows, mode_flowStep hdiscovering hstays] at hpd
  · have hsent := hcounts.sent
    have hqueued := hcounts.queued
    have hbooks := h.sent
    rw [hflows]
    omega

omit h in
lemma repairTarget_spec {rc : RetransmissionController} {flow : ℕ} {current : ActiveAttempt}
    (h : rc.repairTarget name candidate flow = some current) :
    rc.active.lookup name = some current ∧ current.flow = flow ∧ current.mode = .dt := by
  obtain ⟨hlookup, hcurrent⟩ := Option.filter_eq_some_iff.mp h
  have hcurrent := of_decide_eq_true hcurrent
  exact ⟨hlookup, hcurrent.2.2.1, hcurrent.2.2.2⟩

/-- A repair that is queued leaves its mark with the active attempt. -/
lemma Repairing.repair {flow : ℕ} {current : ActiveAttempt}
    (howned : OwnedCore cfg c) (htarget : c.ctl.repairTarget name candidate flow = some current) :
    Repairing i (c.apply cfg
      { c.stay with
        ctl := { c.ctl with active := c.ctl.active.insert name { current with
          fastRepairTriggered := true
          fastRepairQueued := ((c.flows flow).queueShadowFastRepair candidate).2 = .queued } }
        flow := flow
        ops := [.queueRepair candidate] }) := by
  obtain ⟨hlookup, rfl, hmode⟩ := repairTarget_spec htarget
  have hcount := count_insert (fun _ (a : ActiveAttempt) => a.flow = i && a.fastRepairQueued)
    name { current with
      fastRepairTriggered := true
      fastRepairQueued := ((c.flows current.flow).queueShadowFastRepair candidate).2 = .queued }
    c.ctl.active
  by_cases hi : current.flow = i
  · subst hi
    have hdt : (c.flows current.flow).mode = .dt :=
      (howned.active name current hlookup).started hmode
    refine h.section (howned.discovering _) rfl rfl nofun (fun hpd => ?_) ?_
    · cases hpd.symm.trans hdt
    · simp only [decide_true, Bool.true_and] at hcount
      simp only [FlowOp.sendsRepair, FlowOp.queuesRepair, FlowOp.outcome, Option.any_some,
        Bool.toNat_false, zero_add]
      exact le_trans (le_add_right _ _) hcount.le
  · refine h.apply (howned.discovering i) ?_ fun hflow => absurd hflow hi
    simp only [hi, decide_false, Bool.false_and, Bool.toNat_false, add_zero] at hcount
    exact le_trans (le_add_right _ _) hcount.le

/-- An attempt that is installed takes over the mark of the one before it. -/
lemma Repairing.addEnd {seq : ℤ} {flow : ℕ} {mode : TransmissionMode} {baseRTO : ℚ}
    {out : List CoreOut} {generation : ℕ} (howned : OwnedCore cfg c)
    (hlock : c.lock = .adding name seq flow mode baseRTO) :
    Repairing i (c.apply cfg
      { ctl := c.ctl.add name seq flow mode baseRTO now
        lock := .free
        flow := flow
        ops := [.install seq generation (c.ctl.isFastRepair name seq)]
        out := out }) := by
  have hcount := count_insert (fun _ (a : ActiveAttempt) => a.flow = i && a.fastRepairQueued)
    name (c.ctl.newAttempt name seq flow mode baseRTO) c.ctl.active
  have hnew : (c.ctl.newAttempt name seq flow mode baseRTO).fastRepairQueued = false := by
    rw [RetransmissionController.newAttempt]
  simp only [hnew, Bool.and_false, Bool.toNat_false, add_zero] at hcount
  by_cases hi : flow = i
  · subst hi
    -- the attempt before it belongs to the flow, since the name does
    have hmark : (c.ctl.isFastRepair name seq).toNat
        ≤ (c.ctl.active.holdsAt (fun _ a => a.flow = flow && a.fastRepairQueued) name).toNat := by
      rw [RetransmissionController.isFastRepair, holdsAt]
      cases hlookup : c.ctl.active.lookup name with
      | none => exact le_rfl
      | some a =>
        have hflow : a.flow = flow :=
          ((howned.active name a hlookup).names.unique (howned.adding _ _ _ _ _ hlock).names).1
        simp only [Option.any_some, hflow, decide_true, Bool.true_and]
        cases a.fastRepairQueued with
        | true => exact Bool.toNat_le _
        | false => simp
    have hflagged : (c.apply cfg
        { ctl := c.ctl.add name seq flow mode baseRTO now
          lock := .free
          flow := flow
          ops := [.install seq generation (c.ctl.isFastRepair name seq)]
          out := out }).flagged flow
        + (c.ctl.active.holdsAt (fun _ a => a.flow = flow && a.fastRepairQueued) name).toNat
        = c.flagged flow := hcount
    refine h.section (howned.discovering flow) rfl rfl (by simp [FlowOp.stays])
      (fun hpd => ?_) ?_
    · have hidle := h.idle hpd
      omega
    · simp only [FlowOp.sendsRepair]
      omega
  · refine h.apply (howned.discovering i) ?_ fun hflow => absurd hflow hi
    exact le_trans (le_add_right _ _) hcount.le

lemma repairing_step (howned : OwnedCore cfg c) {op : CoreOp}
    (hinstall : ∀ seq generation isFastRepair,
      op ≠ .onFlow i (.install seq generation isFastRepair))
    (hswitch : ∀ now, op = .onFlow i (.switch now) → (c.flows i).mode = .pd) :
    Repairing i (coreStep cfg c op) := by
  have hdiscovering := howned.discovering i
  have hmoves := c.moves op
  rw [coreStep]
  generalize c.move op = m at hmoves ⊢
  have hops : (∀ now, op ≠ .addEnd now) → (∀ now, op ≠ .onFlow i (.switch now)) → m.flow = i →
      ∀ fop ∈ m.ops, fop.queuesOnly = true := by
    rintro hadd hnot rfl fop hfop
    rcases hmoves.mem_ops hfop with rfl | ⟨hbooks, -⟩ | ⟨now, _, _, _, _, rfl, -⟩
    · cases fop with
      | install => exact absurd rfl (hinstall _ _ _)
      | switch now => exact absurd rfl (hnot now)
      | _ => rfl
    · cases fop <;> first | rfl | cases hbooks
    · exact absurd rfl (hadd now)
  cases hmoves with
  | stay =>
    rw [apply_stay]
    exact h
  | onFlow flow fop =>
    by_cases hfop : ∃ now, CoreOp.onFlow flow fop = .onFlow i (.switch now)
    · obtain ⟨now, ⟨⟩⟩ := hfop
      have hflagged := h.idle (hswitch now rfl)
      have hflows : (c.apply cfg { c.stay with flow := i, ops := [.switch now] }).flows i
          = (c.flows i).switchToDT cfg now := by
        rw [apply_flows, if_pos rfl]
        rfl
      refine ⟨fun hpd => ?_, ?_⟩
      · rw [hflows] at hpd
        cases hpd
      · rw [hflows]
        change 0 + c.flagged i ≤ 0
        rw [hflagged]
    · exact h.apply hdiscovering le_rfl (hops (by simp) fun now heq => hfop ⟨now, heq⟩)
  | addEnd now hlock => exact h.addEnd howned hlock
  | removeIfCurrent | complete =>
    exact h.apply hdiscovering count_erase_le (hops (by simp) (by simp))
  | repair hlock htarget => exact h.repair howned htarget
  | expirePD hlock hpop =>
    refine h.apply hdiscovering (count_erase_le.trans ?_) (hops (by simp) (by simp))
    exact (congrArg (count _) (popExpired_active hpop).1).le
  | expireStale hlock hpop | expireDT hlock hpop =>
    refine h.apply hdiscovering ?_ (hops (by simp) (by simp))
    exact (congrArg (count _) (popExpired_active hpop).1).le
  | _ => exact h.apply hdiscovering le_rfl (hops (by simp) (by simp))

end

/-! ### Runs -/

/-- The invariants of the books, with the ownership of names. -/
structure Booked (cfg : ConsumerConfig) (i : ℕ) (s : Consumer) : Prop where
  owned : Owned cfg s
  resolving : Resolving (s.core.flows i).shadowLoss
  scanning : Scanning i s
  repairing : Repairing i s.core

lemma booked_step (h : Booked cfg i s) : Booked cfg i (consumerStep cfg s e) where
  owned := h.owned.step
  resolving :=
    (flow_step (I := fun f => Discovering f ∧ Resolving f.shadowLoss)
      (fun _ op hf _ => ⟨discovering_step hf.1, resolving_step hf.2 (shadowStep_flowStep hf.1 op)⟩)
      ⟨h.owned.core.discovering i, h.resolving⟩
      (guarded_of_forall_mem (fun _ _ _ => trivial) _)).2
  scanning := scanning_step h.owned h.scanning e
  repairing := by
    cases hop : (s.move cfg e).op with
    | none =>
      rw [core_consumerStep_none hop]
      exact h.repairing
    | some op =>
      rw [core_consumerStep_some hop]
      refine repairing_step h.repairing h.owned.core ?_ ?_
      · rintro seq generation isFastRepair rfl
        exact (s.moves cfg e).no_install hop
      · rintro now rfl
        exact ((s.moves cfg e).switch h.owned hop).1

lemma booked_new : Booked cfg i (.new cfg now) := by
  have hshadow : ((new cfg now).core.flows i).shadowLoss = {} := by
    simp only [new, newFlowContext]
    cases cfg.initialMode <;> rfl
  refine ⟨owned_new cfg now, ?_, ⟨fun _ => rfl, ?_⟩, ⟨fun _ => rfl, ?_⟩⟩
  · rw [hshadow]
    exact ⟨le_rfl, le_rfl, le_rfl⟩
  · rw [hshadow]
    rfl
  · rw [hshadow]
    exact le_rfl

lemma booked_run {es : List ConsumerEvent} : Booked cfg i (consumerRun cfg (.new cfg now) es) :=
  run_invariant (I := Booked cfg i) (fun _ _ h => booked_step h) booked_new es

/-- `f'` sends as `f` does: at its rate, within its window, after its timeouts and for what is
pending. -/
structure SameSending (f f' : FlowContext) : Prop where
  currentRate : f'.currentRate = f.currentRate
  congestionWindow : f'.congestionWindow = f.congestionWindow
  rto : f'.rto = f.rto
  pendingSends : f'.pendingSends = f.pendingSends

lemma SameSending.trans {f₁ f₂ f₃ : FlowContext} (h : SameSending f₁ f₂) (h' : SameSending f₂ f₃) :
    SameSending f₁ f₃ :=
  ⟨h'.1.trans h.1, h'.2.trans h.2, h'.3.trans h.3, h'.4.trans h.4⟩

lemma sameSending_repairs (hop : op.repairs = true) : SameSending f (flowStep cfg f op) := by
  have hqueue : ∀ seq, SameSending f (f.queueRetransmissionLocked seq).1 := by
    intro seq
    rw [queueRetransmissionLocked]
    split_ifs <;> exact ⟨rfl, rfl, rfl, rfl⟩
  cases op with
  | queueRepair candidate =>
    rw [flowStep]
    obtain ⟨outcome, -, heq⟩ | ⟨-, -, heq⟩ := f.queueShadowFastRepair_cases <;> rw [heq]
    · exact ⟨rfl, rfl, rfl, rfl⟩
    · exact { hqueue candidate.sequence with }
  | repairOutcome candidate outcome => exact ⟨rfl, rfl, rfl, rfl⟩
  | scan now =>
    rw [flowStep, runShadowLossScan]
    split_ifs <;> exact ⟨rfl, rfl, rfl, rfl⟩
  | _ => cases hop

/-- A step of the core by which only repairs are booked. -/
lemma sameSending_coreStep {op : CoreOp} (hpq : (c.move op).ctl.pq = c.ctl.pq)
    (hops : ∀ fop ∈ (c.move op).ops, fop.repairs = true) :
    (coreStep cfg c op).ctl.pq = c.ctl.pq
      ∧ ∀ j, SameSending (c.flows j) ((coreStep cfg c op).flows j) := by
  refine ⟨hpq, fun j => ?_⟩
  rw [coreStep, apply_flows]
  split_ifs
  · exact guarded_invariant (I := SameSending (c.flows j))
      (fun f fop hf (hfop : fop.repairs = true) => hf.trans (sameSending_repairs hfop))
      ⟨rfl, rfl, rfl, rfl⟩ (guarded_of_forall_mem (fun fop hfop _ => hops fop hfop) _)
  · exact ⟨rfl, rfl, rfl, rfl⟩

lemma Core.Moves.of_repair {m : CoreMove}
    (h : c.Moves (.queueShadowFastRepairIfCurrent name candidate i) m) :
    m.ctl.pq = c.ctl.pq ∧ ∀ fop ∈ m.ops, fop.repairs = true := by
  cases h with
  | stay => exact ⟨rfl, fun fop hfop => by cases hfop⟩
  | refuseRepair | repair =>
    refine ⟨rfl, fun fop hfop => ?_⟩
    rw [mem_singleton.mp hfop]
    rfl

/-- Scanning and queueing a fast repair leave the transfer and the timers alone. -/
lemma sameSending_scan (he : (∃ now, e = .scan i now) ∨ e = .repair i) :
    (consumerStep cfg s e).core.ctl.pq = s.core.ctl.pq
      ∧ ∀ j, SameSending (s.core.flows j) ((consumerStep cfg s e).core.flows j) := by
  cases hop : (s.move cfg e).op with
  | none =>
    rw [core_consumerStep_none hop]
    exact ⟨rfl, fun j => ⟨rfl, rfl, rfl, rfl⟩⟩
  | some op =>
    rw [core_consumerStep_some hop]
    rcases he with ⟨now, rfl⟩ | rfl
    · rw [Consumer.move] at hop
      split_ifs at hop
      · cases hop
        refine sameSending_coreStep rfl fun fop hfop => ?_
        rw [mem_singleton.mp hfop]
        rfl
      · cases hop
    · rw [Consumer.move] at hop
      split at hop
      · cases hop
      · split_ifs at hop
        · cases hop
          obtain ⟨hpq, hops⟩ := (s.core.moves _).of_repair
          exact sameSending_coreStep hpq hops
        · cases hop

/-- **The books of the fast repairs**: in every run each pair of a sequence and a generation is
triggered at most once, and a sequence no more often than it was sent as a new one; every trigger
has one outcome, but for those of a scan in progress; the other counters are bounded by those they
are part of, so the analysis accepts the summary when no scan is in progress; and scanning and
queueing a fast repair leave rate, window, timeout, pending Interests and timers alone. -/
theorem fast_repair_exact (cfg : ConsumerConfig) (now : Time) (i : ℕ) (es : List ConsumerEvent) :
    let s := consumerRun cfg (.new cfg now) es
    let out := flowReports i (consumerTrace cfg (.new cfg now) es)
    let d := (s.core.flows i).shadowLoss
    (∀ k generation, out.count (.triggered k generation) ≤ 1)
      ∧ (∀ k, (triggered k out).length ≤ freshSends k out)
      ∧ d.fastRepairTriggers = d.fastRepairQueued + d.fastRepairAlreadyQueued
        + d.fastRepairAlreadyTriggered + d.fastRepairStale + (s.driver.scans i).length
      ∧ d.fastRepairSent ≤ d.fastRepairQueued
      ∧ d.fastRepairResolved ≤ d.fastRepairQueued
      ∧ d.fastRepairResolvedAfterSend ≤ min d.fastRepairSent d.fastRepairResolved
      ∧ (s.driver.scans i = [] → d.fastRepairSummary.line.check = .ok ())
      ∧ ∀ e, (∃ now, e = .scan i now) ∨ e = .repair i →
        (consumerStep cfg s e).core.ctl.pq = s.core.ctl.pq
          ∧ ∀ j, SameSending (s.core.flows j) ((consumerStep cfg s e).core.flows j) := by
  intro s out d
  have hwatching : s.Watching i out := watching_run
  have hbooked : Booked cfg i s := booked_run
  have hsent : d.fastRepairSent ≤ d.fastRepairQueued :=
    le_trans (le_add_right _ _) hbooked.repairing.sent
  have hresolved : d.fastRepairResolved ≤ d.fastRepairQueued :=
    le_trans (le_add_right _ _) hbooked.resolving.resolved
  have hafter : d.fastRepairResolvedAfterSend ≤ min d.fastRepairSent d.fastRepairResolved :=
    le_min (le_trans (le_add_right _ _) hbooked.resolving.afterSend) hbooked.resolving.le
  refine ⟨fun k generation => ?_, fun k => ?_, hbooked.scanning.books, hsent, hresolved, hafter,
    fun hidle => ?_, fun e he => sameSending_scan he⟩
  · exact count_triggered_le.trans
      (nodup_iff_count_le_one.mp (hwatching.spent k).nodup generation)
  · exact le_trans (le_add_right _ _) (hwatching.paid k)
  · refine check_line ?_ hsent hresolved hafter
    have hbooks := hbooked.scanning.books
    rwa [hidle] at hbooks

/-- A consumer with nine packets to transfer. -/
def nineConsumer : ConsumerConfig :=
  { soleConsumer .dt with
    maxPackets := 9
    maxPackets_pos := by decide
    maxPackets_lt := by decide }

/-- All packets are sent and all but the first are answered; a scan finds the first one overdue, and
its repair is queued. -/
def overdueQueued : List ConsumerEvent :=
  .tick 0 (10 * millisecond) :: replicate 36 (.advance 0 (10 * millisecond) true)
    ++ .tick 0 (20 * millisecond) :: replicate 29 (.advance 0 (20 * millisecond) true)
    ++ replicate 8 (.callback 0 (.data (replicate 6016 0)) (300 * millisecond))
    ++ [.scan 0 (400 * millisecond), .repair 0]

/-- The repair is sent, and then answered. -/
def repairOne : List ConsumerEvent :=
  overdueQueued ++ .tick 0 (410 * millisecond) :: replicate 8 (.advance 0 (410 * millisecond) true)
    ++ [.callback 0 (.data (replicate 6016 0)) (450 * millisecond)]

theorem fast_repair_exact_one :
    let s := consumerRun nineConsumer (.new nineConsumer 0) repairOne
    let d := (s.core.flows 0).shadowLoss
    (d.fastRepairTriggers = 1 ∧ d.fastRepairSent = 1 ∧ d.fastRepairResolvedAfterSend = 1)
      ∧ d.fastRepairSummary.line.check = .ok () := by
  refine ⟨by decide +kernel, ?_⟩
  refine (fast_repair_exact nineConsumer 0 0 repairOne).2.2.2.2.2.2.1 ?_
  decide +kernel

end Mars
