import Mars.Basic
import Mars.Lib.Outcome
import Mars.Lib.Steps
import Mathlib.Algebra.BigOperators.Group.Finset.Basic
import Mathlib.Data.Rat.Floor

/-!
The per-face control state of the data-transmission (DT) phase: a token bucket that all
forwarding threads share, and the packet budgets it hands out to them.

* `noteDtThreadDemand`, `takeDtThreadBudget`: what a forwarding thread reports and takes;
* `refillDtFaceTokens`, `reclaimDtThreadBudget`, `assignDtWeightedThreadBudget`,
  `distributeDtFaceBudget`, `allocateDtFaceBudgets`: one epoch of the scheduler;
* `DtLedger`: what an epoch mints, forces and assigns;
* `dtControlRun`: the states a face's control state can be in.

Floating-point numbers are exact rationals.
-/

namespace Mars

open Function

/-! ### The control state -/

/-- The fields of `dtFaceControlState` that the scheduler reads.  The slices
`demandByThread`, `budgetByThread` and `carryByThread` always have the same length
`slots`; they are `0` past it. -/
structure DtFaceControlState where
  activated : Bool
  rate : ℚ
  tokens : ℚ
  lastRefill : Option Time
  livenessForcedPackets : ℤ
  slots : ℕ
  demandByThread : ℕ → ℤ
  budgetByThread : ℕ → ℤ
  carryByThread : ℕ → ℚ
  budgetRR : ℕ

/-- `&dtFaceControlState{}`. -/
def DtFaceControlState.new : DtFaceControlState where
  activated := false
  rate := 0
  tokens := 0
  lastRefill := none
  livenessForcedPackets := 0
  slots := 0
  demandByThread := fun _ => 0
  budgetByThread := fun _ => 0
  carryByThread := fun _ => 0
  budgetRR := 0

def dtFaceInitRate : ℚ := 500
def dtFaceTokenBurstCapPackets : ℚ := 64
def dtRetainedBudgetCapPackets : ℚ := 1
def dtThreadQuotaCapPackets : ℤ := 512
def dtThreadActiveBaseWeight : ℚ := 1
def dtThreadQuotaCarryCapPackets : ℚ := 1
def dtLivenessForcedPacketsPerStarvedRound : ℤ := 2
def dtLivenessForcedPacketsMax : ℤ := 32

/-- What one epoch of the scheduler mints, forces and assigns. -/
inductive DtLedger where
  | minted (tokens : ℚ)
  | forced
  | assigned (availablePackets assignedPackets : ℤ)
  deriving DecidableEq, Repr

/-- `ensureDtControlThreadSlotsLocked`, for `n` configured threads. -/
def ensureDtControlThreadSlots (n : ℕ) (control : DtFaceControlState) : DtFaceControlState :=
  let n := if n = 0 then 1 else n
  { control with
    slots := max control.slots n
    budgetRR := if n ≤ control.budgetRR then 0 else control.budgetRR }

variable (control : DtFaceControlState)

/-- The part of `noteDtThreadDemand` after the slots are there: a thread without demand
keeps neither budget nor carry. -/
def setDtThreadDemand (threadID : ℕ) (demand : ℤ) : DtFaceControlState :=
  { control with
    demandByThread := update control.demandByThread threadID demand
    budgetByThread :=
      if demand = 0 then update control.budgetByThread threadID 0
      else control.budgetByThread
    carryByThread :=
      if demand = 0 then update control.carryByThread threadID 0
      else control.carryByThread }

/-- `noteDtThreadDemand`; a negative demand is clamped to `0`. -/
def noteDtThreadDemand (n : ℕ) (control : DtFaceControlState) (threadID : ℕ) (delta : ℤ) :
    DtFaceControlState :=
  let control := ensureDtControlThreadSlots n control
  if threadID < control.slots then
    setDtThreadDemand control threadID (max 0 (control.demandByThread threadID + delta))
  else control

/-- `takeDtThreadBudget`, with the number of packets granted. -/
def takeDtThreadBudget (n : ℕ) (control : DtFaceControlState) (threadID : ℕ)
    (maxPackets : ℤ) : DtFaceControlState × ℤ :=
  if maxPackets ≤ 0 then (control, 0)
  else
    let control := ensureDtControlThreadSlots n control
    if control.slots ≤ threadID then (control, 0)
    else if control.budgetByThread threadID ≤ 0 then (control, 0)
    else
      let grant := min (control.budgetByThread threadID) maxPackets
      ({ control with
          budgetByThread := update control.budgetByThread threadID
            (control.budgetByThread threadID - grant) }, grant)

/-- `clearDtFaceBlockedStateLocked`. -/
def clearDtFaceBlockedState (now : Time) : DtFaceControlState :=
  { control with
    tokens := 0
    lastRefill := some now
    livenessForcedPackets := 0
    budgetByThread := fun _ => 0
    carryByThread := fun _ => 0 }

/-! ### One epoch of the scheduler -/

/-- The seconds since the last refill; a clock that runs back counts as none. -/
def elapsedSeconds (now : Time) : ℚ :=
  max 0 (((now - control.lastRefill.getD now : ℤ) : ℚ) / 10 ^ 9)

/-- `refillDtFaceTokensLocked`. -/
def refillDtFaceTokens (now : Time) : Outcome DtFaceControlState DtLedger :=
  let minted := elapsedSeconds control now * control.rate
  .go { control with
        tokens := min (control.tokens + minted) dtFaceTokenBurstCapPackets
        lastRefill := some now } [.minted minted]

/-- `totalDtThreadBudgetLocked`. -/
def totalDtThreadBudget : ℤ :=
  ∑ tid ∈ Finset.range control.slots, control.budgetByThread tid

/-- The sum over `demandByThread`. -/
def totalDtThreadDemand : ℤ :=
  ∑ tid ∈ Finset.range control.slots, control.demandByThread tid

/-- `clampDtRetainedBudgetLocked`. -/
def clampDtRetainedBudget : DtFaceControlState :=
  { control with tokens := min control.tokens dtRetainedBudgetCapPackets }

/-- Packets that were not spent go back to the bucket, which keeps at most one. -/
def returnPackets (packets : ℤ) : DtFaceControlState :=
  if 0 < packets then
    clampDtRetainedBudget { control with tokens := control.tokens + packets }
  else control

/-- `reclaimDtThreadBudgetLocked`. -/
def reclaimDtThreadBudget : DtFaceControlState :=
  returnPackets { control with budgetByThread := fun _ => 0 } (totalDtThreadBudget control)

/-- The order in which a scheduler loop visits the threads. -/
def rrOrder (nThreads start : ℕ) : List ℕ :=
  (List.range nThreads).map fun i => (start + i) % nThreads

/-- The entry of `weights` for a thread. -/
def dtThreadWeight (tid : ℕ) : ℚ :=
  if control.demandByThread tid ≤ 0 then 0
  else dtThreadActiveBaseWeight + control.demandByThread tid

/-- A thread of `assignDtWeightedThreadBudgetLocked` gets the whole packets of its share
and carries the rest; the number assigned so far goes along. -/
def grantShare (availablePackets : ℤ) (totalWeight : ℚ) (round : DtFaceControlState × ℤ)
    (tid : ℕ) : DtFaceControlState × ℤ :=
  let control := round.1
  let weight := dtThreadWeight control tid
  if weight ≤ 0 then round
  else
    let share := availablePackets * (weight / totalWeight) + control.carryByThread tid
    let grant := ⌊share⌋
    let control := { control with
      carryByThread := update control.carryByThread tid
        (min (share - grant) dtThreadQuotaCarryCapPackets) }
    let room := dtThreadQuotaCapPackets - control.budgetByThread tid
    if room ≤ 0 ∨ grant ≤ 0 then (control, round.2)
    else
      ({ control with
          budgetByThread := update control.budgetByThread tid
            (control.budgetByThread tid + min grant room) }, round.2 + min grant room)

/-- The search for the largest carry: the best thread so far and its carry. -/
def betterCarry (best : Option ℕ × ℚ) (tid : ℕ) : Option ℕ × ℚ :=
  if dtThreadWeight control tid ≤ 0 then best
  else if dtThreadQuotaCapPackets ≤ control.budgetByThread tid then best
  else if best.2 < control.carryByThread tid then (some tid, control.carryByThread tid)
  else best

/-- The thread that gets the next left-over packet, if there is one. -/
def bestTid (order : List ℕ) : Option ℕ :=
  (order.foldl (betterCarry control) (none, -1)).1

/-- A left-over packet for a thread, which uses up its carry. -/
def givePacket (tid : ℕ) : DtFaceControlState :=
  { control with
    budgetByThread :=
      update control.budgetByThread tid (control.budgetByThread tid + 1)
    carryByThread := update control.carryByThread tid 0 }

/-- The second loop of `assignDtWeightedThreadBudgetLocked`: each left-over packet goes to
the thread with the largest carry. -/
def spreadLeftover (order : List ℕ) : ℕ → DtFaceControlState → DtFaceControlState × ℤ
  | 0, control => (control, 0)
  | remaining + 1, control =>
    match bestTid control order with
    | none => (control, 0)
    | some tid =>
      let rest := spreadLeftover order remaining (givePacket control tid)
      (rest.1, rest.2 + 1)

/-- `assignDtWeightedThreadBudgetLocked`, with the number of packets assigned. -/
def assignDtWeightedThreadBudget (availablePackets : ℤ) (nThreads start : ℕ) :
    DtFaceControlState × ℤ :=
  if availablePackets ≤ 0 ∨ nThreads = 0 then (control, 0)
  else
    let order := rrOrder nThreads start
    let totalWeight := (order.map (dtThreadWeight control)).sum
    if totalWeight ≤ 0 then (control, 0)
    else
      let shared := order.foldl (grantShare availablePackets totalWeight) (control, 0)
      let spread := spreadLeftover order (availablePackets - shared.2).toNat shared.1
      (spread.1, shared.2 + spread.2)

/-- Go's conversion from `float64` to `int`: towards zero. -/
def truncate (q : ℚ) : ℤ := if 0 ≤ q then ⌊q⌋ else ⌈q⌉

/-- The first part of `distributeDtFaceBudgetLocked`: the whole tokens are drawn, or else
one packet that liveness forces. -/
def drawGrant : DtFaceControlState × ℤ × List DtLedger :=
  let grant := truncate control.tokens
  let control := if 0 < grant then { control with tokens := control.tokens - grant } else control
  if grant < 1 ∧ 0 < control.livenessForcedPackets then
    ({ control with livenessForcedPackets := control.livenessForcedPackets - 1 }, 1, [.forced])
  else (control, grant, [])

/-- The second part of `distributeDtFaceBudgetLocked`: the grant is assigned, and what is
left of it returned. -/
def spendGrant (grant : ℤ) : Outcome DtFaceControlState DtLedger :=
  if grant ≤ 0 then .ret control []
  else if ∀ tid ∈ Finset.range control.slots, control.demandByThread tid ≤ 0 then
    .ret (returnPackets control grant) []
  else
    let assigned := assignDtWeightedThreadBudget control grant control.slots control.budgetRR
    .ret { returnPackets assigned.1 (grant - assigned.2) with
            budgetRR := (control.budgetRR + 1) % control.slots } [.assigned grant assigned.2]

/-- `distributeDtFaceBudgetLocked`. -/
def distributeDtFaceBudget : Outcome DtFaceControlState DtLedger :=
  let drawn := drawGrant (reclaimDtThreadBudget control)
  (Outcome.go drawn.1 drawn.2.2).bind fun control => spendGrant control drawn.2.1

/-- `allocateDtFaceBudgets`; `blocked` is what `dtBlockedFace` says of the face. -/
def allocateDtFaceBudgets (n : ℕ) (control : DtFaceControlState) (now : Time)
    (blocked : Bool) : Outcome DtFaceControlState DtLedger :=
  if !control.activated ∨ control.rate ≤ 0 then .ret control []
  else if blocked then
    .ret (clearDtFaceBlockedState (ensureDtControlThreadSlots n control) now) []
  else
    let control := ensureDtControlThreadSlots n control
    if totalDtThreadDemand control ≤ 0 then
      .ret { clampDtRetainedBudget (reclaimDtThreadBudget control) with lastRefill := some now } []
    else (refillDtFaceTokens control now).bind distributeDtFaceBudget

/-! ### Runs -/

/-- `ensureDtControlActivated`, for one of the candidate faces. -/
def ensureDtControlActivated (now : Time) : DtFaceControlState :=
  if control.activated then control
  else { control with activated := true, rate := dtFaceInitRate, lastRefill := some now }

/-- What a round of the rate controller does to the fields above: a new rate, unless the
round is frozen, and two more forced packets if the face is starved. -/
def noteRateRound (newRate : Option ℚ) (starved : Bool) : DtFaceControlState :=
  { control with
    rate := newRate.getD control.rate
    livenessForcedPackets :=
      if starved then
        min (control.livenessForcedPackets + dtLivenessForcedPacketsPerStarvedRound)
          dtLivenessForcedPacketsMax
      else control.livenessForcedPackets }

/-- What can happen to the control state of a face; `clear` is what `runDtControllerTick` does
to a blocked face. -/
inductive DtControlEvent where
  | activate (now : Time)
  | rateRound (newRate : Option ℚ) (starved : Bool)
  | demand (threadID : ℕ) (delta : ℤ)
  | take (threadID : ℕ) (maxPackets : ℤ)
  | allocate (now : Time) (blocked : Bool)
  | clear (now : Time)
  deriving DecidableEq, Repr

def dtControlStep (n : ℕ) (control : DtFaceControlState) : DtControlEvent → DtFaceControlState
  | .activate now => ensureDtControlActivated control now
  | .rateRound newRate starved => noteRateRound control newRate starved
  | .demand threadID delta => noteDtThreadDemand n control threadID delta
  | .take threadID maxPackets => (takeDtThreadBudget n control threadID maxPackets).1
  | .allocate now blocked => (allocateDtFaceBudgets n control now blocked).state
  | .clear now => clearDtFaceBlockedState (ensureDtControlThreadSlots n control) now

/-- The control state of a face after a history of events, with `n` threads. -/
def dtControlRun (n : ℕ) (es : List DtControlEvent) : DtFaceControlState :=
  Steps.run (dtControlStep n) .new es

end Mars
