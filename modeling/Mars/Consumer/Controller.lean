import Mars.Consumer.Sections
import Mars.Lib.PriorityQueue

/-!
The retransmission controller of the consumer (`RetransmissionController`).

Every send gets a new generation.  The controller keeps for each name the attempt that is current
(`active`) and a heap of timers; a timer, a NACK or a fast repair of an attempt that is no longer
current has no effect.

* `ActiveAttempt`, `PendingPacket`, `RetransmissionController`: the data behind `rc.mu`;
* `retransmissionTimeout`: the timer of an attempt, with backoff and jitter;
* `Core`, `CoreOp`, `coreStep`: the controller together with the flows;
* `Core.Moves`, `Core.moves`: what a step can do, with what it finds.

A method of the controller that enters two critical sections of a flow is cut between them; the
controller's lock is held in between (`RcLock`), so that only sections of flows can come there.
-/

namespace Mars

open List

/-- `ActiveAttempt`; a flow is known by its index. -/
structure ActiveAttempt where
  sequenceNum : ℤ
  generation : ℕ
  attempt : ℕ
  rtoBackoffLevel : ℕ
  timeout : Time
  mode : TransmissionMode
  flow : ℕ
  fastRepairTriggered : Bool := false
  fastRepairQueued : Bool := false
  deriving DecidableEq, Repr

/-- `PendingPacket`, without its `Expiration`, which is its priority in the heap. -/
structure PendingPacket where
  name : Name
  sequenceNum : ℤ
  generation : ℕ
  attempt : ℕ
  rtoBackoffLevel : ℕ
  timeout : Time
  flow : ℕ
  deriving DecidableEq, Repr

structure RetransmissionController where
  pq : PriorityQueue PendingPacket Time := []
  active : FinMap Name ActiveAttempt := ∅
  nextGeneration : ℕ := 0

/-! ### The timer of an attempt -/

/-- `Name.String`. -/
def nameString (name : Name) : Str := name.flatMap fun component => '/' :: component

/-- `retransmissionJitter`. -/
def retransmissionJitter (name : Name) (generation : ℕ) : ℚ :=
  let mixed := (nameString name).foldl
    (fun mixed c => (mixed ^^^ (c.toNat % 256)) * 1099511628211 % 2 ^ 64)
    (generation % 2 ^ 64 ^^^ 1469598103934665603)
  let unit : ℚ := (mixed % 20001 : ℕ) / 20000
  (2 * unit - 1) * rtoJitterRatio

/-- The doubling loop of `retransmissionTimeout`. -/
def backedOffRTO (maxBaseRTO timeoutMs : ℚ) : ℕ → ℚ
  | 0 => timeoutMs
  | level + 1 =>
    if timeoutMs < maxBaseRTO then backedOffRTO maxBaseRTO (min (timeoutMs * 2) maxBaseRTO) level
    else timeoutMs

/-- The conversion of milliseconds to a `time.Duration`, which truncates. -/
def durationOfMs (ms : ℚ) : Time := (ms * 1000000).num.tdiv (ms * 1000000).den

/-- `retransmissionTimeout`. -/
def retransmissionTimeout (baseRTO : ℚ) (backoffLevel : ℕ) (name : Name) (generation : ℕ) : Time :=
  let maxBaseRTO := maxRto / (1 + rtoJitterRatio)
  let timeoutMs := backedOffRTO maxBaseRTO (min (max baseRTO minRto) maxBaseRTO) backoffLevel
  durationOfMs (min (max (timeoutMs * (1 + retransmissionJitter name generation)) minRto) maxRto)

/-! ### The methods -/

namespace RetransmissionController

variable (rc : RetransmissionController)

variable (name : Name)

/-- `IsCurrent`. -/
def isCurrent (generation : ℕ) : Bool :=
  (rc.active.lookup name).any fun current => current.generation = generation

/-- The attempt that `Add` makes current. -/
def newAttempt (seq : ℤ) (flow : ℕ) (mode : TransmissionMode) (baseRTO : ℚ) : ActiveAttempt :=
  let generation := rc.nextGeneration + 1
  let (attempt, rtoBackoffLevel) := match rc.active.lookup name with
    | some current =>
      if current.sequenceNum = seq then
        (current.attempt + 1,
          -- a fast repair is no evidence that the recovery timer expired
          if current.fastRepairQueued then current.rtoBackoffLevel
          else current.rtoBackoffLevel + 1)
      else (1, 0)
    | none => (1, 0)
  { sequenceNum := seq
    generation := generation
    attempt := attempt
    rtoBackoffLevel := rtoBackoffLevel
    timeout := match mode with
      | .dt => retransmissionTimeout baseRTO rtoBackoffLevel name generation
      | .pd => durationOfMs baseRTO
    mode := mode
    flow := flow }

/-- Whether the send that `Add` registers carries out a queued fast repair. -/
def isFastRepair (seq : ℤ) : Bool :=
  (rc.active.lookup name).any fun current =>
    current.sequenceNum = seq && current.fastRepairQueued

/-- The part of `Add` on the controller: the attempt becomes current and its timer is set. -/
def add (seq : ℤ) (flow : ℕ) (mode : TransmissionMode) (baseRTO : ℚ) (now : Time) :
    RetransmissionController :=
  let state := rc.newAttempt name seq flow mode baseRTO
  { pq := rc.pq.push ⟨name, seq, state.generation, state.attempt, state.rtoBackoffLevel,
      state.timeout, flow⟩ (now + state.timeout)
    active := rc.active.insert name state
    nextGeneration := state.generation }

/-- `Complete`, and the removal in `RemoveIfCurrent` and in the scheduler. -/
def remove : RetransmissionController := { rc with active := rc.active.erase name }

/-- The item whose timer the scheduler finds expired, and the controller without it. -/
def popExpired (now : Time) : Option (PendingPacket × RetransmissionController) :=
  (rc.pq.popIf fun expiration => expiration < now).map fun (item, rest) =>
    (item, { rc with pq := rest })

/-- `QueueShadowFastRepairIfCurrent` finds the attempt of the candidate current. -/
def repairTarget (candidate : ShadowFastRepairCandidate) (flow : ℕ) : Option ActiveAttempt :=
  (rc.active.lookup name).filter fun current =>
    current.generation = candidate.generation ∧ current.sequenceNum = candidate.sequence
      ∧ current.flow = flow ∧ current.mode = .dt

end RetransmissionController

/-! ### The controller and the flows -/

/-- Who holds `rc.mu` between two critical sections of a flow: nobody, `Add` after
`GetRTOIfPending`, or the scheduler after `RecordShadowRTO`. -/
inductive RcLock where
  | free
  | adding (name : Name) (seq : ℤ) (flow : ℕ) (mode : TransmissionMode) (baseRTO : ℚ)
  | expiring (item : PendingPacket)
  deriving DecidableEq, Repr

structure Core where
  ctl : RetransmissionController := {}
  lock : RcLock := .free
  flows : ℕ → FlowContext

/-- The steps: a section of a flow, and the parts of the controller's methods. -/
inductive CoreOp where
  | onFlow (flow : ℕ) (op : FlowOp)
  | addBegin (name : Name) (seq : ℤ) (flow : ℕ) (mode : TransmissionMode)
  | addEnd (now : Time)
  | removeIfCurrent (name : Name) (generation : ℕ)
  | complete (name : Name)
  | queueRetransmissionIfCurrent (name : Name) (generation : ℕ)
  | queueShadowFastRepairIfCurrent (name : Name) (candidate : ShadowFastRepairCandidate)
      (flow : ℕ)
  | expire (now : Time)
  | expireEnd
  deriving DecidableEq, Repr

/-- What the steps report: the reports of the flows, a generation that was handed out, a name
whose current attempt was completed or removed. -/
inductive CoreOut where
  | onFlow (flow : ℕ) (out : FlowOut)
  | added (name : Name) (generation : ℕ)
  | dropped (name : Name)
  deriving DecidableEq, Repr

/-- A step of the core: the new state of the controller and of its lock, and the sections that are
run on one flow. -/
structure CoreMove where
  ctl : RetransmissionController
  lock : RcLock
  flow : ℕ := 0
  ops : List FlowOp := []
  out : List CoreOut := []

namespace Core

variable (c : Core)

def stay : CoreMove := { ctl := c.ctl, lock := c.lock }

/-- The end of `Add`, after the timer of the flow was read. -/
def addEndMove (now : Time) : CoreMove :=
  match c.lock with
  | .adding name seq flow mode baseRTO =>
    let generation := c.ctl.nextGeneration + 1
    { ctl := c.ctl.add name seq flow mode baseRTO now
      lock := .free
      flow := flow
      ops := [.install seq generation (c.ctl.isFastRepair name seq)]
      out := [.added name generation] }
  | _ => c.stay

/-- `QueueRetransmissionIfCurrent`. -/
def queueRetransmissionIfCurrentMove (name : Name) (generation : ℕ) : CoreMove :=
  match c.ctl.active.lookup name with
  | some current =>
    if current.generation = generation then
      { c.stay with flow := current.flow, ops := [.queueRetransmission current.sequenceNum] }
    else c.stay
  | none => c.stay

/-- `QueueShadowFastRepairIfCurrent`. -/
def queueShadowFastRepairIfCurrentMove (name : Name) (candidate : ShadowFastRepairCandidate)
    (flow : ℕ) : CoreMove :=
  match c.ctl.repairTarget name candidate flow with
  | none => { c.stay with flow := flow, ops := [.repairOutcome candidate .stale] }
  | some current =>
    if current.fastRepairTriggered then
      { c.stay with flow := flow, ops := [.repairOutcome candidate .alreadyTriggered] }
    else
      let outcome := ((c.flows flow).queueShadowFastRepair candidate).2
      { c.stay with
        ctl := { c.ctl with active := c.ctl.active.insert name { current with
          fastRepairTriggered := true
          fastRepairQueued := outcome = .queued } }
        flow := flow
        ops := [.queueRepair candidate] }

/-- The scheduler takes the item whose timer expired.  An item of an attempt that is not current is
dropped; during path discovery the attempt is removed. -/
def expireMove (now : Time) : CoreMove :=
  match c.ctl.popExpired now with
  | none => c.stay
  | some (item, ctl) =>
    if ctl.isCurrent item.name item.generation then
      match (ctl.active.lookup item.name).map ActiveAttempt.mode with
      | some .dt =>
        { ctl := ctl, lock := .expiring item, flow := item.flow
          ops := [.shadowRTO item.sequenceNum now] }
      | _ => { ctl := ctl.remove item.name, lock := c.lock, out := [.dropped item.name] }
    else { ctl := ctl, lock := c.lock }

/-- The scheduler queues the retransmission of the item it took. -/
def expireEndMove : CoreMove :=
  match c.lock with
  | .expiring item =>
    { ctl := c.ctl
      lock := .free
      flow := item.flow
      ops := if ((c.flows item.flow).queueRetransmission item.sequenceNum).2 then
          [.queueRetransmission item.sequenceNum, .dtRTO]
        else [.queueRetransmission item.sequenceNum] }
  | _ => c.stay

/-- A step of the core.  The methods of the controller wait for its lock. -/
def move : CoreOp → CoreMove
  | .onFlow flow op => { c.stay with flow := flow, ops := [op] }
  | .addEnd now => c.addEndMove now
  | .expireEnd => c.expireEndMove
  | op =>
    if c.lock ≠ .free then c.stay
    else
      match op with
      | .addBegin name seq flow mode =>
        match (c.flows flow).getRTOIfPending name seq with
        | some baseRTO => { c.stay with lock := .adding name seq flow mode baseRTO }
        | none => c.stay
      | .removeIfCurrent name generation =>
        if c.ctl.isCurrent name generation then
          { c.stay with ctl := c.ctl.remove name, out := [.dropped name] }
        else c.stay
      | .complete name => { c.stay with ctl := c.ctl.remove name, out := [.dropped name] }
      | .queueRetransmissionIfCurrent name generation =>
        c.queueRetransmissionIfCurrentMove name generation
      | .queueShadowFastRepairIfCurrent name candidate flow =>
        c.queueShadowFastRepairIfCurrentMove name candidate flow
      | .expire now => c.expireMove now
      | _ => c.stay

end Core

section Steps

variable (cfg : ConsumerConfig)

variable (c : Core)

/-- The state after a move: its sections are run on its flow. -/
def Core.apply (m : CoreMove) : Core where
  ctl := m.ctl
  lock := m.lock
  flows := Function.update c.flows m.flow (flowRun cfg (c.flows m.flow) m.ops)

/-- The reports of a move. -/
def Core.report (m : CoreMove) : List CoreOut :=
  m.out ++ (flowTrace cfg (c.flows m.flow) m.ops).map (.onFlow m.flow)

def coreStep (op : CoreOp) : Core := c.apply cfg (c.move op)

def coreHandle (op : CoreOp) : Core × List CoreOut :=
  (coreStep cfg c op, c.report cfg (c.move op))

/-- The state after a list of steps. -/
def coreRun (ops : List CoreOp) : Core := Steps.run (coreStep cfg) c ops

/-- The reports of a list of steps. -/
def coreTrace (ops : List CoreOp) : List CoreOut := Steps.trace (coreHandle cfg) c ops

end Steps

variable {cfg : ConsumerConfig} {c : Core}

lemma coreRun_concat {ops : List CoreOp} {op : CoreOp} :
    coreRun cfg c (ops ++ [op]) = coreStep cfg (coreRun cfg c ops) op := Steps.run_concat c ops op

lemma coreTrace_concat {ops : List CoreOp} {op : CoreOp} :
    coreTrace cfg c (ops ++ [op])
      = coreTrace cfg c ops
        ++ (coreRun cfg c ops).report cfg ((coreRun cfg c ops).move op) := by
  rw [coreTrace, Steps.trace_append]
  congr 1
  exact append_nil _

@[simp] lemma Core.apply_stay (c : Core) : c.apply cfg c.stay = c := by
  simp [Core.apply, Core.stay, flowRun]

lemma Core.apply_flows (c : Core) {m : CoreMove} {i : ℕ} :
    (c.apply cfg m).flows i = if i = m.flow then flowRun cfg (c.flows i) m.ops else c.flows i := by
  rw [Core.apply]
  split_ifs with hi
  · rw [hi]
    exact Function.update_self _ _ _
  · exact Function.update_of_ne hi _ _

@[simp] lemma Core.report_stay (c : Core) : c.report cfg c.stay = [] := rfl

/-! ### What a step can do -/

/-- The sections by which the controller keeps the books of a flow. -/
def FlowOp.books : FlowOp → Bool
  | .queueRetransmission _ | .queueRepair _ | .repairOutcome _ _ | .shadowRTO _ _ | .dtRTO => true
  | _ => false

/-- Whether a section records an outcome or collects candidates. -/
def FlowOp.repairs : FlowOp → Bool
  | .queueRepair _ | .repairOutcome _ _ | .scan _ => true
  | _ => false

namespace Core

/-- The moves of the core, with what they find. -/
inductive Moves (c : Core) : CoreOp → CoreMove → Prop
  | stay (op : CoreOp) : Moves c op c.stay
  | onFlow (flow : ℕ) (op : FlowOp) :
      Moves c (.onFlow flow op) { c.stay with flow := flow, ops := [op] }
  | addBegin {name : Name} {seq : ℤ} {flow : ℕ} {mode : TransmissionMode} {baseRTO : ℚ}
      (hlock : c.lock = .free) (hrto : (c.flows flow).getRTOIfPending name seq = some baseRTO) :
      Moves c (.addBegin name seq flow mode)
        { c.stay with lock := .adding name seq flow mode baseRTO }
  | addEnd {name : Name} {seq : ℤ} {flow : ℕ} {mode : TransmissionMode} {baseRTO : ℚ} (now : Time)
      (hlock : c.lock = .adding name seq flow mode baseRTO) :
      Moves c (.addEnd now)
        { ctl := c.ctl.add name seq flow mode baseRTO now
          lock := .free
          flow := flow
          ops := [.install seq (c.ctl.nextGeneration + 1) (c.ctl.isFastRepair name seq)]
          out := [.added name (c.ctl.nextGeneration + 1)] }
  | removeIfCurrent {name : Name} {generation : ℕ} (hlock : c.lock = .free)
      (hcurrent : c.ctl.isCurrent name generation = true) :
      Moves c (.removeIfCurrent name generation)
        { c.stay with ctl := c.ctl.remove name, out := [.dropped name] }
  | complete (name : Name) (hlock : c.lock = .free) :
      Moves c (.complete name) { c.stay with ctl := c.ctl.remove name, out := [.dropped name] }
  | queue {name : Name} {generation : ℕ} {current : ActiveAttempt} (hlock : c.lock = .free)
      (hcurrent : c.ctl.active.lookup name = some current)
      (hgeneration : current.generation = generation) :
      Moves c (.queueRetransmissionIfCurrent name generation)
        { c.stay with flow := current.flow, ops := [.queueRetransmission current.sequenceNum] }
  | refuseRepair (name : Name) (candidate : ShadowFastRepairCandidate) (flow : ℕ)
      {outcome : ShadowFastRepairQueueOutcome} (hlock : c.lock = .free)
      (houtcome : outcome ≠ .queued) :
      Moves c (.queueShadowFastRepairIfCurrent name candidate flow)
        { c.stay with flow := flow, ops := [.repairOutcome candidate outcome] }
  | repair {name : Name} {candidate : ShadowFastRepairCandidate} {flow : ℕ}
      {current : ActiveAttempt} (hlock : c.lock = .free)
      (htarget : c.ctl.repairTarget name candidate flow = some current)
      (huntriggered : current.fastRepairTriggered = false) :
      Moves c (.queueShadowFastRepairIfCurrent name candidate flow)
        { c.stay with
          ctl := { c.ctl with active := c.ctl.active.insert name { current with
            fastRepairTriggered := true
            fastRepairQueued := ((c.flows flow).queueShadowFastRepair candidate).2 = .queued } }
          flow := flow
          ops := [.queueRepair candidate] }
  | expireStale {item : PendingPacket} {ctl : RetransmissionController} {now : Time}
      (hlock : c.lock = .free) (hpop : c.ctl.popExpired now = some (item, ctl))
      (hstale : ctl.isCurrent item.name item.generation = false) :
      Moves c (.expire now) { ctl := ctl, lock := c.lock }
  | expirePD {item : PendingPacket} {ctl : RetransmissionController} {now : Time}
      (hlock : c.lock = .free) (hpop : c.ctl.popExpired now = some (item, ctl))
      (hcurrent : ctl.isCurrent item.name item.generation = true)
      (hmode : (ctl.active.lookup item.name).map ActiveAttempt.mode = some .pd) :
      Moves c (.expire now)
        { ctl := ctl.remove item.name, lock := c.lock, out := [.dropped item.name] }
  | expireDT {item : PendingPacket} {ctl : RetransmissionController} {now : Time}
      (hlock : c.lock = .free) (hpop : c.ctl.popExpired now = some (item, ctl))
      (hcurrent : ctl.isCurrent item.name item.generation = true)
      (hmode : (ctl.active.lookup item.name).map ActiveAttempt.mode = some .dt) :
      Moves c (.expire now)
        { ctl := ctl, lock := .expiring item, flow := item.flow
          ops := [.shadowRTO item.sequenceNum now] }
  | expireEnd {item : PendingPacket} (hlock : c.lock = .expiring item) :
      Moves c .expireEnd
        { ctl := c.ctl
          lock := .free
          flow := item.flow
          ops := if ((c.flows item.flow).queueRetransmission item.sequenceNum).2 then
              [.queueRetransmission item.sequenceNum, .dtRTO]
            else [.queueRetransmission item.sequenceNum] }

lemma moves_expire (c : Core) {now : Time} (hlock : c.lock = .free) :
    c.Moves (.expire now) (c.expireMove now) := by
  rw [expireMove]
  cases hpop : c.ctl.popExpired now with
  | none => exact .stay _
  | some found =>
    obtain ⟨item, ctl⟩ := found
    cases hcurrent : ctl.isCurrent item.name item.generation with
    | false => simpa [hcurrent] using Moves.expireStale hlock hpop hcurrent
    | true =>
      simp only [hcurrent, if_true]
      split
      · rename_i hmode
        exact .expireDT hlock hpop hcurrent hmode
      · rename_i hmode
        refine .expirePD hlock hpop hcurrent ?_
        rw [RetransmissionController.isCurrent, Option.any_eq_true] at hcurrent
        obtain ⟨current, hlookup, -⟩ := hcurrent
        rw [hlookup, Option.map_some] at hmode ⊢
        cases hmd : current.mode with
        | pd => rfl
        | dt => exact absurd (by rw [hmd]) hmode

/-- Every step is one of the moves. -/
lemma moves (c : Core) (op : CoreOp) : c.Moves op (c.move op) := by
  by_cases hlock : c.lock = .free
  · cases op with
    | onFlow flow op => exact .onFlow flow op
    | addEnd now =>
      simp only [move, addEndMove, hlock]
      exact .stay _
    | expireEnd =>
      simp only [move, expireEndMove, hlock]
      exact .stay _
    | addBegin name seq flow mode =>
      simp only [move, hlock, ne_eq, not_true, if_false]
      split
      · rename_i baseRTO hrto
        exact .addBegin hlock hrto
      · exact .stay _
    | removeIfCurrent name generation =>
      simp only [move, hlock, ne_eq, not_true, if_false]
      split_ifs with hcurrent
      · exact .removeIfCurrent hlock hcurrent
      · exact .stay _
    | complete name =>
      simp only [move, hlock, ne_eq, not_true, if_false]
      exact .complete name hlock
    | queueRetransmissionIfCurrent name generation =>
      simp only [move, hlock, ne_eq, not_true, if_false, queueRetransmissionIfCurrentMove]
      split
      · rename_i current hcurrent
        split_ifs with hgeneration
        · exact .queue hlock hcurrent hgeneration
        · exact .stay _
      · exact .stay _
    | queueShadowFastRepairIfCurrent name candidate flow =>
      simp only [move, hlock, ne_eq, not_true, if_false, queueShadowFastRepairIfCurrentMove]
      split
      · exact .refuseRepair name candidate flow hlock (by decide)
      · rename_i current htarget
        split_ifs with htriggered
        · exact .refuseRepair name candidate flow hlock (by decide)
        · exact .repair hlock htarget (by simpa using htriggered)
    | expire now =>
      simp only [move, hlock, ne_eq, not_true, if_false]
      exact c.moves_expire hlock
  · cases op with
    | onFlow flow op => exact .onFlow flow op
    | addEnd now =>
      rw [move, addEndMove]
      split
      · rename_i hadding
        exact .addEnd now hadding
      · exact .stay _
    | expireEnd =>
      rw [move, expireEndMove]
      split
      · rename_i hexpiring
        exact .expireEnd hexpiring
      · exact .stay _
    | _ =>
      rw [move, if_pos hlock]
      exact .stay _

/-- A section of a move is the one it was asked for, or keeps the books, or is that of `Add`; only
`QueueShadowFastRepairIfCurrent` records outcomes. -/
lemma Moves.mem_ops {op : CoreOp} {m : CoreMove} (h : c.Moves op m) {fop : FlowOp}
    (hfop : fop ∈ m.ops) :
    op = .onFlow m.flow fop
      ∨ fop.books = true ∧ (fop.repairs = true →
        ∃ name candidate, op = .queueShadowFastRepairIfCurrent name candidate m.flow)
      ∨ ∃ now name seq mode baseRTO, op = .addEnd now
        ∧ c.lock = .adding name seq m.flow mode baseRTO
        ∧ fop = .install seq (c.ctl.nextGeneration + 1) (c.ctl.isFastRepair name seq) := by
  cases h with
  | onFlow flow fop' =>
    rw [mem_singleton.mp hfop]
    exact .inl rfl
  | @addEnd name seq flow mode baseRTO now hlock =>
    exact .inr (.inr ⟨now, name, seq, mode, baseRTO, rfl, hlock, mem_singleton.mp hfop⟩)
  | expireEnd hlock =>
    simp only at hfop
    split_ifs at hfop <;> simp only [mem_cons, not_mem_nil, or_false] at hfop
    · rcases hfop with rfl | rfl <;> exact .inr (.inl ⟨rfl, nofun⟩)
    · rw [hfop]
      exact .inr (.inl ⟨rfl, nofun⟩)
  | queue | expireDT =>
    rw [mem_singleton.mp hfop]
    exact .inr (.inl ⟨rfl, nofun⟩)
  | refuseRepair | repair =>
    rw [mem_singleton.mp hfop]
    exact .inr (.inl ⟨rfl, fun _ => ⟨_, _, rfl⟩⟩)
  | _ => exact absurd hfop not_mem_nil

/-- A move runs the section it was asked for, or quiet ones. -/
lemma Moves.sections {op : CoreOp} {m : CoreMove} (h : c.Moves op m) :
    (∃ fop, op = .onFlow m.flow fop ∧ m.ops = [fop]) ∨ ∀ fop ∈ m.ops, fop.quiet = true := by
  by_cases hasked : ∃ fop, op = .onFlow m.flow fop ∧ m.ops = [fop]
  · exact .inl hasked
  refine .inr fun fop hfop => ?_
  rcases h.mem_ops hfop with heq | ⟨hbooks, -⟩ | ⟨_, _, _, _, _, -, -, rfl⟩
  · cases h with
    | stay => cases hfop
    | onFlow => exact absurd ⟨_, rfl, rfl⟩ hasked
    | _ => cases heq
  · cases fop <;> first | rfl | cases hbooks
  · rfl

end Core

end Mars
