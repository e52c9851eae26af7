import Mars.Consumer.Controller

/-!
The goroutines of the consumer, and their interleavings.

Each flow has a sender (`runFlow` and `sendSingleInterest`), which holds a sequence number and a
token balance, and a control loop, which scans for losses.  Each Interest that was expressed has one
callback to come.  The scheduler of the controller and the goroutine that starts data transmission
run beside them.  A step of the consumer is one critical section, or a step that is local to a
goroutine, or an access to a shared field outside any lock.

* `SenderPc`, `Sender`: where a sender is, and its local variables;
* `Driver`, `Consumer`: the goroutines, with the controller and the flows;
* `ConsumerEvent`, `Consumer.move`, `consumerStep`, `consumerRun`: the interleavings;
* `Consumer.Moves`, `Consumer.moves`: what a step can do, with what it finds;
* `SenderMoves`, `sender_cases`: what it makes of one sender;
* `sections`, `flows_consumerStep`, `flow_invariant`: the critical sections of a flow that a step
  enters, and what they preserve.

An `Express` that fails does what a cancellation does, so it is an attempt that is cancelled at
once.  The engine matches Data by its exact name, so Data has the name of its Interest.
-/

namespace Mars

open Function Steps

/-- Where a sender is: waiting for a tick; in the sending loop; about to check the window, to pop
a retransmission or to take the next sequence; in `sendSingleInterest`, before the Interest is made,
before it is recorded, before and in the middle of `Add`; or gone. -/
inductive SenderPc where
  | waiting
  | looping
  | checking
  | popping
  | fresh
  | chosen (seq : ℤ) (isRetransmission : Bool)
  | named (name : Name) (seq : ℤ) (isRetransmission : Bool)
  | recorded (name : Name) (seq : ℤ) (mode : TransmissionMode)
  | adding (name : Name) (seq : ℤ) (mode : TransmissionMode)
  | stopped
  deriving DecidableEq, Repr

/-- The local variables of `runFlow`, and the channel by which it is told to reset them. -/
structure Sender where
  pc : SenderPc := .waiting
  tokens : ℚ := 0
  sequenceNum : ℤ := 0
  lastTokenRefill : Time
  resetSignal : Bool := false
  deriving DecidableEq, Repr

/-- An Interest that was expressed and whose callback is still to come. -/
structure Attempt where
  flow : ℕ
  name : Name
  generation : ℕ
  mode : TransmissionMode
  deriving DecidableEq, Repr

/-- How the engine ends an attempt. -/
inductive CallbackResult where
  | nack
  | cancelled
  | timeout
  | data (payload : List ℕ)
  deriving DecidableEq, Repr

/-- What a callback or the scheduler still has to do after its first lock is released. -/
inductive Task where
  | onNack (flow : ℕ) (name : Name)
  | onTimeout (flow : ℕ) (name : Name)
  | complete (name : Name)
  deriving DecidableEq, Repr

/-- Where `startDataTransmission` is. -/
inductive Starter where
  | idle
  | switched
  | signalled
  deriving DecidableEq, Repr

/-- The goroutines: the senders, the candidates that the control loops still have to queue, the
starters, the callbacks to come and the tasks that are left. -/
structure Driver where
  senders : ℕ → Sender
  scans : ℕ → List ShadowFastRepairCandidate := fun _ => []
  starters : ℕ → Starter := fun _ => .idle
  attempts : List Attempt := []
  tasks : List Task := []

structure Consumer where
  core : Core
  driver : Driver

inductive ConsumerEvent where
  | tick (flow : ℕ) (now : Time)
  | reset (flow : ℕ) (now : Time)
  | stop (flow : ℕ)
  | advance (flow : ℕ) (now : Time) (makeInterest : Bool)
  | callback (index : ℕ) (result : CallbackResult) (now : Time)
  | task (index : ℕ)
  | expire (now : Time)
  | expireEnd
  | scan (flow : ℕ) (now : Time)
  | repair (flow : ℕ)
  | start (flow : ℕ) (now : Time)
  | signal (flow : ℕ)
  | setRate (flow : ℕ) (rate : ℚ)
  deriving DecidableEq, Repr

/-- A step of the consumer: the step of the core, if any, and the new state of the goroutines. -/
structure ConsumerMove where
  op : Option CoreOp := none
  driver : Driver

namespace Driver

variable (d : Driver)

def setSender (i : ℕ) (sender : Sender) : Driver :=
  { d with senders := update d.senders i sender }

def setPc (i : ℕ) (pc : SenderPc) : Driver := d.setSender i { d.senders i with pc := pc }

end Driver

/-- The tokens of a sender at a tick, from `runFlow`. -/
def Sender.refill (sender : Sender) (currentRate : ℚ) (now : Time) : Sender :=
  let elapsed : ℚ := (max (now - sender.lastTokenRefill) 0 : ℤ) / 1000000000
  { sender with
    tokens := min (sender.tokens + currentRate * elapsed) (max 1 (currentRate * (5 / 1000)))
    lastTokenRefill := now
    pc := .looping }

namespace Consumer

variable (cfg : ConsumerConfig) (s : Consumer)

def stay : ConsumerMove := { driver := s.driver }

/-- A tick reaches a waiting sender. -/
def tickMove (i : ℕ) (now : Time) : ConsumerMove :=
  let sender := s.driver.senders i
  let f := s.core.flows i
  if sender.pc = .waiting then
    match f.mode with
    | .pd =>
      { op := some (.onFlow i .pdTick)
        driver := s.driver.setSender i (if f.pdTick.2 then sender.refill f.currentRate now
          else { sender with lastTokenRefill := now }) }
    | .dt => { driver := s.driver.setSender i (sender.refill f.currentRate now) }
  else s.stay

/-- The next step of the sending loop of `runFlow`, with `sendSingleInterest`. -/
def advanceMove (i : ℕ) (now : Time) (makeInterest : Bool) : ConsumerMove :=
  let sender := s.driver.senders i
  let f := s.core.flows i
  match sender.pc with
  | .looping =>
    if sender.tokens < 1 then { driver := s.driver.setPc i .waiting }
    else
      match f.mode with
      | .dt =>
        if f.hasQueuedRetransmission then { driver := s.driver.setPc i .popping }
        else if (cfg.maxPackets : ℤ) ≤ sender.sequenceNum then
          { driver := s.driver.setSender i { sender with tokens := 0, pc := .waiting } }
        else { driver := s.driver.setPc i .checking }
      | .pd => { driver := s.driver.setPc i .fresh }
  | .checking =>
    { driver := s.driver.setPc i (if f.canSendNewDT cfg then .fresh else .waiting) }
  | .popping =>
    { op := some (.onFlow i .pop)
      driver := match f.popRetransmission.2 with
        | some seq => s.driver.setSender i { sender with
            tokens := sender.tokens - 1, pc := .chosen seq true }
        | none => s.driver.setPc i .looping }
  | .fresh =>
    if (cfg.maxPackets : ℤ) ≤ sender.sequenceNum then
      { driver := s.driver.setSender i { sender with tokens := 0, pc := .waiting } }
    else
      { driver := s.driver.setSender i { sender with
          sequenceNum := sender.sequenceNum + 1
          tokens := sender.tokens - 1
          pc := .chosen (sender.sequenceNum + 1) false } }
  | .chosen seq isRetransmission =>
    { driver := s.driver.setPc i (if makeInterest then
        .named (f.interestNameForSeq seq) seq isRetransmission else .looping) }
  | .named name seq isRetransmission =>
    { op := some (.onFlow i (.record name seq now isRetransmission))
      driver := s.driver.setPc i
        (if (f.recordInterestSend name seq now isRetransmission).2.2 then
          .recorded name seq f.mode else .looping) }
  | .recorded name seq mode =>
    if s.core.lock = .free then
      { op := some (.addBegin name seq i mode)
        driver := s.driver.setPc i
          (if (f.getRTOIfPending name seq).isSome then .adding name seq mode else .looping) }
    else s.stay
  | .adding name seq mode =>
    match s.core.lock with
    | .adding name' seq' flow mode' _ =>
      if name' = name ∧ seq' = seq ∧ flow = i ∧ mode' = mode then
        { op := some (.addEnd now)
          driver := { s.driver.setPc i .looping with
            attempts := ⟨i, name, s.core.ctl.nextGeneration + 1, mode⟩ :: s.driver.attempts } }
      else s.stay
    | _ => s.stay
  | .waiting | .stopped => s.stay

/-- The callback of an attempt. -/
def callbackMove (index : ℕ) (result : CallbackResult) (now : Time) : ConsumerMove :=
  match s.driver.attempts[index]? with
  | none => s.stay
  | some attempt =>
    let driver := { s.driver with attempts := s.driver.attempts.eraseIdx index }
    match result with
    | .data payload =>
      let f := s.core.flows attempt.flow
      { op := some (.onFlow attempt.flow (.data payload attempt.name now))
        driver := if (f.onData cfg payload attempt.name now).2 then
            { driver with tasks := .complete attempt.name :: driver.tasks }
          else driver }
    | .timeout => { driver := driver }
    | .nack | .cancelled =>
      if s.core.lock = .free then
        match attempt.mode with
        | .dt =>
          { op := some (.queueRetransmissionIfCurrent attempt.name attempt.generation)
            driver := driver }
        | .pd =>
          { op := some (.removeIfCurrent attempt.name attempt.generation)
            driver := if s.core.ctl.isCurrent attempt.name attempt.generation then
                { driver with tasks := .onNack attempt.flow attempt.name :: driver.tasks }
              else driver }
      else s.stay

/-- A task that was left. -/
def taskMove (index : ℕ) : ConsumerMove :=
  match s.driver.tasks[index]? with
  | none => s.stay
  | some task =>
    let driver := { s.driver with tasks := s.driver.tasks.eraseIdx index }
    match task with
    | .onNack flow name => { op := some (.onFlow flow (.nack name)), driver := driver }
    | .onTimeout flow name => { op := some (.onFlow flow (.timeout name)), driver := driver }
    | .complete name =>
      if s.core.lock = .free then { op := some (.complete name), driver := driver }
      else s.stay

/-- The scheduler; an attempt of path discovery leaves its flow to be told. -/
def expireMove (now : Time) : ConsumerMove :=
  if s.core.lock = .free then
    match s.core.ctl.popExpired now with
    | none => s.stay
    | some (item, ctl) =>
      { op := some (.expire now)
        driver := if ctl.isCurrent item.name item.generation
            ∧ (ctl.active.lookup item.name).map ActiveAttempt.mode = some .pd then
            { s.driver with tasks := .onTimeout item.flow item.name :: s.driver.tasks }
          else s.driver }
  else s.stay

/-- A step of the consumer. -/
def move : ConsumerEvent → ConsumerMove
  | .tick i now => s.tickMove i now
  | .reset i now =>
    let sender := s.driver.senders i
    if sender.pc = .waiting ∧ sender.resetSignal then
      { driver := s.driver.setSender i { sender with
          tokens := 0, sequenceNum := 0, lastTokenRefill := now, resetSignal := false } }
    else s.stay
  | .stop i =>
    if (s.driver.senders i).pc = .waiting then { driver := s.driver.setPc i .stopped } else s.stay
  | .advance i now makeInterest => s.advanceMove cfg i now makeInterest
  | .callback index result now => s.callbackMove cfg index result now
  | .task index => s.taskMove index
  | .expire now => s.expireMove now
  | .expireEnd => { op := some .expireEnd, driver := s.driver }
  | .scan i now =>
    if s.driver.scans i = [] then
      { op := some (.onFlow i (.scan now))
        driver := { s.driver with
          scans := update s.driver.scans i ((s.core.flows i).runShadowLossScan now).2 } }
    else s.stay
  | .repair i =>
    match s.driver.scans i with
    | [] => s.stay
    | candidate :: rest =>
      if s.core.lock = .free then
        { op := some (.queueShadowFastRepairIfCurrent
            ((s.core.flows i).interestNameForSeq candidate.sequence) candidate i)
          driver := { s.driver with scans := update s.driver.scans i rest } }
      else s.stay
  | .start i now =>
    if i < cfg.flowCount ∧ (∀ j < cfg.flowCount, (s.core.flows j).pdFinished)
        ∧ s.driver.starters i = .idle then
      { op := some (.onFlow i (.switch now))
        driver := { s.driver with starters := update s.driver.starters i .switched } }
    else s.stay
  | .signal i =>
    if s.driver.starters i = .switched then
      { driver := { s.driver.setSender i { s.driver.senders i with resetSignal := true } with
          starters := update s.driver.starters i .signalled } }
    else s.stay
  | .setRate i rate => { op := some (.onFlow i (.setRate rate)), driver := s.driver }

/-- The consumer at its start. -/
def new (cfg : ConsumerConfig) (now : Time) : Consumer where
  core := { flows := fun i => newFlowContext cfg i now }
  driver := { senders := fun _ => { lastTokenRefill := now } }

end Consumer

section Steps

variable (cfg : ConsumerConfig)

variable (s : Consumer)

def consumerStep (e : ConsumerEvent) : Consumer where
  core := coreRun cfg s.core (s.move cfg e).op.toList
  driver := (s.move cfg e).driver

def consumerHandle (e : ConsumerEvent) : Consumer × List CoreOut :=
  (consumerStep cfg s e, coreTrace cfg s.core (s.move cfg e).op.toList)

/-- The state after a list of events. -/
def consumerRun (es : List ConsumerEvent) : Consumer :=
  run (consumerStep cfg) s es

/-- The reports of a list of events. -/
def consumerTrace (es : List ConsumerEvent) : List CoreOut :=
  trace (consumerHandle cfg) s es

/-- The critical sections of flow `i` that an event enters. -/
def Consumer.sections (i : ℕ) (e : ConsumerEvent) : List FlowOp :=
  match (s.move cfg e).op with
  | some op => if (s.core.move op).flow = i then (s.core.move op).ops else []
  | none => []

end Steps

/-! ### What a step can do -/

/-- The places of a sender outside `sendSingleInterest`. -/
def SenderPc.idle : SenderPc → Bool
  | .waiting | .looping | .checking | .popping | .fresh | .stopped => true
  | _ => false

/-- Whether an event lets `MakeInterest` succeed. -/
def ConsumerEvent.makesInterest : ConsumerEvent → Bool
  | .advance _ _ makeInterest => makeInterest
  | _ => true

/-- The steps of the sender of flow `i`, but for the end of `Add`. -/
inductive SenderStep (cfg : ConsumerConfig) (s : Consumer) (e : ConsumerEvent) (i : ℕ) :
    Option CoreOp → Sender → Prop
  | idle {sender : Sender} (hidle : (s.driver.senders i).pc.idle = true)
      (hidle' : sender.pc.idle = true)
      (hseq : sender.sequenceNum = (s.driver.senders i).sequenceNum)
      (hreset : sender.resetSignal = (s.driver.senders i).resetSignal)
      (hcheck : sender.pc = .fresh → (s.core.flows i).mode = .dt →
        (s.core.flows i).canSendNewDT cfg = true) :
      SenderStep cfg s e i none sender
  | pdTick {sender : Sender} (hmode : (s.core.flows i).mode = .pd)
      (hidle : (s.driver.senders i).pc.idle = true) (hidle' : sender.pc.idle = true)
      (hseq : sender.sequenceNum = (s.driver.senders i).sequenceNum)
      (hreset : sender.resetSignal = (s.driver.senders i).resetSignal) :
      SenderStep cfg s e i (some (.onFlow i .pdTick)) sender
  | reset (now : Time) (hpc : (s.driver.senders i).pc = .waiting)
      (hreset : (s.driver.senders i).resetSignal = true) :
      SenderStep cfg s e i none { s.driver.senders i with
        tokens := 0, sequenceNum := 0, lastTokenRefill := now, resetSignal := false }
  | popNone (hpc : (s.driver.senders i).pc = .popping)
      (hpop : (s.core.flows i).popRetransmission.2 = none) :
      SenderStep cfg s e i (some (.onFlow i .pop)) { s.driver.senders i with pc := .looping }
  | pop {seq : ℤ} (hpc : (s.driver.senders i).pc = .popping)
      (hpop : (s.core.flows i).popRetransmission.2 = some seq) :
      SenderStep cfg s e i (some (.onFlow i .pop)) { s.driver.senders i with
        tokens := (s.driver.senders i).tokens - 1, pc := .chosen seq true }
  | choose (hpc : (s.driver.senders i).pc = .fresh)
      (hlimit : (s.driver.senders i).sequenceNum < cfg.maxPackets) :
      SenderStep cfg s e i none { s.driver.senders i with
        sequenceNum := (s.driver.senders i).sequenceNum + 1
        tokens := (s.driver.senders i).tokens - 1
        pc := .chosen ((s.driver.senders i).sequenceNum + 1) false }
  | skip {seq : ℤ} {isRetransmission : Bool}
      (hpc : (s.driver.senders i).pc = .chosen seq isRetransmission)
      (hmake : e.makesInterest = false) :
      SenderStep cfg s e i none { s.driver.senders i with pc := .looping }
  | name {seq : ℤ} {isRetransmission : Bool}
      (hpc : (s.driver.senders i).pc = .chosen seq isRetransmission) :
      SenderStep cfg s e i none { s.driver.senders i with
        pc := .named ((s.core.flows i).interestNameForSeq seq) seq isRetransmission }
  | refuse {name : Name} {seq : ℤ} {isRetransmission : Bool} (now : Time)
      (hpc : (s.driver.senders i).pc = .named name seq isRetransmission)
      (hrefused : ((s.core.flows i).recordInterestSend name seq now isRetransmission).2.2 = false) :
      SenderStep cfg s e i (some (.onFlow i (.record name seq now isRetransmission)))
        { s.driver.senders i with pc := .looping }
  | record {name : Name} {seq : ℤ} {isRetransmission : Bool} (now : Time)
      (hpc : (s.driver.senders i).pc = .named name seq isRetransmission)
      (hrecorded : ((s.core.flows i).recordInterestSend name seq now isRetransmission).2.2
        = true) :
      SenderStep cfg s e i (some (.onFlow i (.record name seq now isRetransmission)))
        { s.driver.senders i with pc := .recorded name seq (s.core.flows i).mode }
  | addNone {name : Name} {seq : ℤ} {mode : TransmissionMode}
      (hpc : (s.driver.senders i).pc = .recorded name seq mode) (hlock : s.core.lock = .free)
      (hrto : (s.core.flows i).getRTOIfPending name seq = none) :
      SenderStep cfg s e i (some (.addBegin name seq i mode))
        { s.driver.senders i with pc := .looping }
  | addBegin {name : Name} {seq : ℤ} {mode : TransmissionMode} {baseRTO : ℚ}
      (hpc : (s.driver.senders i).pc = .recorded name seq mode) (hlock : s.core.lock = .free)
      (hrto : (s.core.flows i).getRTOIfPending name seq = some baseRTO) :
      SenderStep cfg s e i (some (.addBegin name seq i mode))
        { s.driver.senders i with pc := .adding name seq mode }

/-- The steps of the consumer, with what they find. -/
inductive Consumer.Moves (cfg : ConsumerConfig) (s : Consumer) :
    ConsumerEvent → ConsumerMove → Prop
  | stay (e : ConsumerEvent) : Moves cfg s e s.stay
  | sender {e : ConsumerEvent} {i : ℕ} {op : Option CoreOp} {sender : Sender}
      (hstep : SenderStep cfg s e i op sender) : Moves cfg s e ⟨op, s.driver.setSender i sender⟩
  | addEnd {i : ℕ} {name : Name} {seq : ℤ} {mode : TransmissionMode} {baseRTO : ℚ} (now : Time)
      (makeInterest : Bool) (hpc : (s.driver.senders i).pc = .adding name seq mode)
      (hlock : s.core.lock = .adding name seq i mode baseRTO) :
      Moves cfg s (.advance i now makeInterest) ⟨some (.addEnd now),
        { s.driver.setPc i .looping with
          attempts := ⟨i, name, s.core.ctl.nextGeneration + 1, mode⟩ :: s.driver.attempts }⟩
  | accept {index : ℕ} {attempt : Attempt} {payload : List ℕ} {now : Time}
      (hget : s.driver.attempts[index]? = some attempt)
      (hdata : ((s.core.flows attempt.flow).onData cfg payload attempt.name now).2 = true) :
      Moves cfg s (.callback index (.data payload) now)
        ⟨some (.onFlow attempt.flow (.data payload attempt.name now)), { s.driver with
          attempts := s.driver.attempts.eraseIdx index
          tasks := .complete attempt.name :: s.driver.tasks }⟩
  | ignore {index : ℕ} {attempt : Attempt} {payload : List ℕ} {now : Time}
      (hget : s.driver.attempts[index]? = some attempt)
      (hdata : ((s.core.flows attempt.flow).onData cfg payload attempt.name now).2 = false) :
      Moves cfg s (.callback index (.data payload) now)
        ⟨some (.onFlow attempt.flow (.data payload attempt.name now)), { s.driver with
          attempts := s.driver.attempts.eraseIdx index }⟩
  | lifetime (index : ℕ) (now : Time) :
      Moves cfg s (.callback index .timeout now)
        ⟨none, { s.driver with attempts := s.driver.attempts.eraseIdx index }⟩
  | nackDT {index : ℕ} {attempt : Attempt} {result : CallbackResult} {now : Time}
      (hget : s.driver.attempts[index]? = some attempt) (hlock : s.core.lock = .free)
      (hmode : attempt.mode = .dt) :
      Moves cfg s (.callback index result now)
        ⟨some (.queueRetransmissionIfCurrent attempt.name attempt.generation), { s.driver with
          attempts := s.driver.attempts.eraseIdx index }⟩
  | nackPD {index : ℕ} {attempt : Attempt} {result : CallbackResult} {now : Time}
      (hget : s.driver.attempts[index]? = some attempt) (hlock : s.core.lock = .free)
      (hmode : attempt.mode = .pd)
      (hcurrent : s.core.ctl.isCurrent attempt.name attempt.generation = true) :
      Moves cfg s (.callback index result now)
        ⟨some (.removeIfCurrent attempt.name attempt.generation), { s.driver with
          attempts := s.driver.attempts.eraseIdx index
          tasks := .onNack attempt.flow attempt.name :: s.driver.tasks }⟩
  | nackStale {index : ℕ} {attempt : Attempt} {result : CallbackResult} {now : Time}
      (hget : s.driver.attempts[index]? = some attempt) (hlock : s.core.lock = .free)
      (hmode : attempt.mode = .pd)
      (hcurrent : s.core.ctl.isCurrent attempt.name attempt.generation = false) :
      Moves cfg s (.callback index result now)
        ⟨some (.removeIfCurrent attempt.name attempt.generation), { s.driver with
          attempts := s.driver.attempts.eraseIdx index }⟩
  | onNack {index flow : ℕ} {name : Name}
      (hget : s.driver.tasks[index]? = some (.onNack flow name)) :
      Moves cfg s (.task index) ⟨some (.onFlow flow (.nack name)), { s.driver with
        tasks := s.driver.tasks.eraseIdx index }⟩
  | onTimeout {index flow : ℕ} {name : Name}
      (hget : s.driver.tasks[index]? = some (.onTimeout flow name)) :
      Moves cfg s (.task index) ⟨some (.onFlow flow (.timeout name)), { s.driver with
        tasks := s.driver.tasks.eraseIdx index }⟩
  | complete {index : ℕ} {name : Name} (hget : s.driver.tasks[index]? = some (.complete name))
      (hlock : s.core.lock = .free) :
      Moves cfg s (.task index) ⟨some (.complete name), { s.driver with
        tasks := s.driver.tasks.eraseIdx index }⟩
  | expirePD {item : PendingPacket} {ctl : RetransmissionController} {now : Time}
      (hlock : s.core.lock = .free) (hpop : s.core.ctl.popExpired now = some (item, ctl))
      (hcurrent : ctl.isCurrent item.name item.generation = true)
      (hmode : (ctl.active.lookup item.name).map ActiveAttempt.mode = some .pd) :
      Moves cfg s (.expire now) ⟨some (.expire now), { s.driver with
        tasks := .onTimeout item.flow item.name :: s.driver.tasks }⟩
  | expire {item : PendingPacket} {ctl : RetransmissionController} {now : Time}
      (hlock : s.core.lock = .free) (hpop : s.core.ctl.popExpired now = some (item, ctl))
      (hother : ¬ (ctl.isCurrent item.name item.generation = true
        ∧ (ctl.active.lookup item.name).map ActiveAttempt.mode = some .pd)) :
      Moves cfg s (.expire now) ⟨some (.expire now), s.driver⟩
  | expireEnd : Moves cfg s .expireEnd ⟨some .expireEnd, s.driver⟩
  | scan {i : ℕ} (now : Time) (hscan : s.driver.scans i = []) :
      Moves cfg s (.scan i now) ⟨some (.onFlow i (.scan now)), { s.driver with
        scans := update s.driver.scans i ((s.core.flows i).runShadowLossScan now).2 }⟩
  | repair {i : ℕ} {candidate : ShadowFastRepairCandidate} {rest : List ShadowFastRepairCandidate}
      (hscan : s.driver.scans i = candidate :: rest) (hlock : s.core.lock = .free) :
      Moves cfg s (.repair i)
        ⟨some (.queueShadowFastRepairIfCurrent
            ((s.core.flows i).interestNameForSeq candidate.sequence) candidate i),
          { s.driver with scans := update s.driver.scans i rest }⟩
  | start {i : ℕ} (now : Time) (hi : i < cfg.flowCount)
      (hall : ∀ j < cfg.flowCount, (s.core.flows j).pdFinished = true)
      (hidle : s.driver.starters i = .idle) :
      Moves cfg s (.start i now) ⟨some (.onFlow i (.switch now)), { s.driver with
        starters := update s.driver.starters i .switched }⟩
  | signal {i : ℕ} (hswitched : s.driver.starters i = .switched) :
      Moves cfg s (.signal i)
        ⟨none, { s.driver.setSender i { s.driver.senders i with resetSignal := true } with
          starters := update s.driver.starters i .signalled }⟩
  | setRate (i : ℕ) (rate : ℚ) :
      Moves cfg s (.setRate i rate) ⟨some (.onFlow i (.setRate rate)), s.driver⟩

namespace Consumer

variable {cfg : ConsumerConfig} (s : Consumer)

lemma moves_tick {i : ℕ} {now : Time} : s.Moves cfg (.tick i now) (s.tickMove i now) := by
  rw [tickMove]
  by_cases hpc : (s.driver.senders i).pc = .waiting
  · have hidle := congrArg SenderPc.idle hpc
    rw [if_pos hpc]
    cases hmode : (s.core.flows i).mode with
    | pd =>
      cases hsend : (s.core.flows i).pdTick.2 with
      | true => exact .sender (.pdTick hmode hidle rfl rfl rfl)
      | false => exact .sender (.pdTick hmode hidle hidle rfl rfl)
    | dt => exact .sender (.idle hidle rfl rfl rfl (nomatch ·))
  · rw [if_neg hpc]
    exact .stay _

lemma moves_advance {i : ℕ} {now : Time} {makeInterest : Bool} :
    s.Moves cfg (.advance i now makeInterest) (s.advanceMove cfg i now makeInterest) := by
  simp only [advanceMove]
  split
  · rename_i hpc
    have hidle := congrArg SenderPc.idle hpc
    cases hmode : (s.core.flows i).mode with
    | pd =>
      simp only
      split_ifs
      · exact .sender (.idle hidle rfl rfl rfl (nomatch ·))
      · exact .sender (.idle hidle rfl rfl rfl fun _ hdt => nomatch hmode.symm.trans hdt)
    | dt =>
      simp only
      split_ifs <;> exact .sender (.idle hidle rfl rfl rfl (nomatch ·))
  · rename_i hpc
    have hidle := congrArg SenderPc.idle hpc
    split_ifs with hcheck
    · exact .sender (.idle hidle rfl rfl rfl fun _ _ => hcheck)
    · exact .sender (.idle hidle rfl rfl rfl (nomatch ·))
  · rename_i hpc
    split
    · rename_i hpop
      exact .sender (.pop hpc hpop)
    · rename_i hpop
      exact .sender (.popNone hpc hpop)
  · rename_i hpc
    have hidle := congrArg SenderPc.idle hpc
    split_ifs with hlimit
    · exact .sender (.idle hidle rfl rfl rfl (nomatch ·))
    · exact .sender (.choose hpc (not_le.mp hlimit))
  · rename_i hpc
    cases makeInterest with
    | true => exact .sender (.name hpc)
    | false => exact .sender (.skip hpc rfl)
  · rename_i hpc
    split_ifs with hrecorded
    · exact .sender (.record now hpc hrecorded)
    · exact .sender (.refuse now hpc (by simpa using hrecorded))
  · rename_i hpc
    split_ifs with hlock hrto
    · obtain ⟨baseRTO, hrto⟩ := Option.isSome_iff_exists.mp hrto
      exact .sender (.addBegin hpc hlock hrto)
    · exact .sender (.addNone hpc hlock (by simpa using hrto))
    · exact .stay _
  · rename_i hpc
    split
    · rename_i hlock
      split_ifs with hsame
      · obtain ⟨rfl, rfl, rfl, rfl⟩ := hsame
        exact .addEnd now makeInterest hpc hlock
      · exact .stay _
    · exact .stay _
  · exact .stay _
  · exact .stay _

lemma moves_callback {index : ℕ} {result : CallbackResult} {now : Time} :
    s.Moves cfg (.callback index result now) (s.callbackMove cfg index result now) := by
  rw [callbackMove]
  split
  · exact .stay _
  · rename_i attempt hget
    cases result with
    | data payload =>
      simp only
      split_ifs with hdata
      · exact .accept hget hdata
      · exact .ignore hget (by simpa using hdata)
    | timeout => exact .lifetime index now
    | _ =>
      simp only
      split_ifs with hlock hcurrent
      · cases hmode : attempt.mode with
        | dt => exact .nackDT hget hlock hmode
        | pd => exact .nackPD hget hlock hmode hcurrent
      · cases hmode : attempt.mode with
        | dt => exact .nackDT hget hlock hmode
        | pd => exact .nackStale hget hlock hmode (by simpa using hcurrent)
      · exact .stay _

lemma moves_task {index : ℕ} : s.Moves cfg (.task index) (s.taskMove index) := by
  rw [taskMove]
  split
  · exact .stay _
  · rename_i task hget
    cases task with
    | onNack flow name => exact .onNack hget
    | onTimeout flow name => exact .onTimeout hget
    | complete name =>
      simp only
      split_ifs with hlock
      · exact .complete hget hlock
      · exact .stay _

/-- Every step is one of the moves. -/
lemma moves (cfg : ConsumerConfig) (e : ConsumerEvent) : s.Moves cfg e (s.move cfg e) := by
  cases e with
  | tick i now => exact s.moves_tick
  | reset i now =>
    simp only [move]
    split_ifs with hreset
    · exact .sender (.reset now hreset.1 hreset.2)
    · exact .stay _
  | stop i =>
    simp only [move]
    split_ifs with hpc
    · exact .sender (.idle (by rw [hpc]; rfl) rfl rfl rfl (nomatch ·))
    · exact .stay _
  | advance i now makeInterest => exact s.moves_advance
  | callback index result now => exact s.moves_callback
  | task index => exact s.moves_task
  | expire now =>
    simp only [move, expireMove]
    split_ifs with hlock
    · split
      · exact .stay _
      · rename_i item ctl hpop
        split_ifs with hpd
        · exact .expirePD hlock hpop hpd.1 hpd.2
        · exact .expire hlock hpop hpd
    · exact .stay _
  | expireEnd => exact .expireEnd
  | scan i now =>
    simp only [move]
    split_ifs with hscan
    · exact .scan now hscan
    · exact .stay _
  | repair i =>
    simp only [move]
    split
    · exact .stay _
    · rename_i candidate rest hscan
      split_ifs with hlock
      · exact .repair hscan hlock
      · exact .stay _
  | start i now =>
    simp only [move]
    split_ifs with hstart
    · exact .start now hstart.1 hstart.2.1 hstart.2.2
    · exact .stay _
  | signal i =>
    simp only [move]
    split_ifs with hswitched
    · exact .signal hswitched
    · exact .stay _
  | setRate i rate => exact .setRate i rate

end Consumer

/-! ### What becomes of a sender -/

/-- The sections that a sender enters. -/
def FlowOp.sends : FlowOp → Bool
  | .record _ _ _ _ | .pop | .pdTick => true
  | _ => false

/-- What a step makes of the sender of flow `i`, with the step of the core that goes with it. -/
inductive SenderMoves (cfg : ConsumerConfig) (s : Consumer) (e : ConsumerEvent) (i : ℕ) :
    Option CoreOp → Sender → Prop
  | stay {op : Option CoreOp} (hop : ∀ fop, op = some (.onFlow i fop) → fop.sends = false) :
      SenderMoves cfg s e i op (s.driver.senders i)
  | step {op : Option CoreOp} {sender : Sender} (hstep : SenderStep cfg s e i op sender) :
      SenderMoves cfg s e i op sender
  | addEnd {name : Name} {seq : ℤ} {mode : TransmissionMode} {baseRTO : ℚ} (now : Time)
      (hpc : (s.driver.senders i).pc = .adding name seq mode)
      (hlock : s.core.lock = .adding name seq i mode baseRTO) :
      SenderMoves cfg s e i (some (.addEnd now)) { s.driver.senders i with pc := .looping }
  | signal (hswitched : s.driver.starters i = .switched) :
      SenderMoves cfg s e i none { s.driver.senders i with resetSignal := true }

/-- A step of another sender does not enter sections of the flow. -/
lemma SenderStep.other {cfg : ConsumerConfig} {s : Consumer} {e : ConsumerEvent} {i j : ℕ}
    {op : Option CoreOp} {sender : Sender} (h : SenderStep cfg s e j op sender) (hij : i ≠ j)
    {fop : FlowOp} : op ≠ some (.onFlow i fop) := by
  rintro rfl
  cases h <;> exact hij rfl

lemma Consumer.Moves.sender_cases {cfg : ConsumerConfig} {s : Consumer} {e : ConsumerEvent}
    {m : ConsumerMove} (h : s.Moves cfg e m) (i : ℕ) :
    SenderMoves cfg s e i m.op (m.driver.senders i) := by
  cases h with
  | @sender _ j _ sender hstep =>
    simp only [Driver.setSender]
    by_cases hij : i = j
    · subst hij
      rw [update_self]
      exact .step hstep
    · rw [update_of_ne hij]
      exact .stay fun fop hop => absurd hop (hstep.other hij)
  | @addEnd j name seq mode baseRTO now makeInterest hpc hlock =>
    simp only [Driver.setPc, Driver.setSender]
    by_cases hij : i = j
    · subst hij
      rw [update_self]
      exact .addEnd now hpc hlock
    · rw [update_of_ne hij]
      exact .stay (by rintro _ ⟨⟩)
  | @signal j hswitched =>
    simp only [Driver.setSender]
    by_cases hij : i = j
    · subst hij
      rw [update_self]
      exact .signal hswitched
    · rw [update_of_ne hij]
      exact .stay (by rintro _ ⟨⟩)
  | _ =>
    refine .stay ?_
    rintro fop ⟨⟩ <;> rfl

section Senders

variable {cfg : ConsumerConfig} {s : Consumer} {e : ConsumerEvent} {m : ConsumerMove} {i : ℕ}
  {name : Name} {seq : ℤ} {now : Time}

/-- `Add` ends where its sender is. -/
lemma Consumer.Moves.addEnd_sender (hm : s.Moves cfg e m) (hop : m.op = some (.addEnd now))
    {mode : TransmissionMode} {baseRTO : ℚ}
    (hlock : s.core.lock = .adding name seq i mode baseRTO) :
    (s.driver.senders i).pc = .adding name seq mode ∧ (m.driver.senders i).pc = .looping := by
  cases hm with
  | sender hstep => cases hstep <;> cases hop
  | addEnd now' makeInterest hpc hlock' =>
    rw [hlock'] at hlock
    cases hlock
    refine ⟨hpc, ?_⟩
    simp only [Driver.setPc, Driver.setSender, update_self]
  | _ => cases hop

/-- Only `Add` installs attempts. -/
lemma Consumer.Moves.no_install (hm : s.Moves cfg e m) {generation : ℕ} {isFastRepair : Bool} :
    m.op ≠ some (.onFlow i (.install seq generation isFastRepair)) := by
  intro hop
  cases hm with
  | sender hstep => cases hstep <;> cases hop
  | _ => cases hop

lemma SenderMoves.record {isRetransmission : Bool} {sender : Sender}
    (h : SenderMoves cfg s e i (some (.onFlow i (.record name seq now isRetransmission))) sender) :
    (s.driver.senders i).pc = .named name seq isRetransmission
      ∧ (((s.core.flows i).recordInterestSend name seq now isRetransmission).2.2 = false
          ∧ sender.pc = .looping
        ∨ ((s.core.flows i).recordInterestSend name seq now isRetransmission).2.2 = true
          ∧ sender.pc = .recorded name seq (s.core.flows i).mode) := by
  cases h with
  | stay hop => cases hop _ rfl
  | step hstep =>
    cases hstep with
    | refuse now hpc hrefused => exact ⟨hpc, .inl ⟨hrefused, rfl⟩⟩
    | record now hpc hrecorded => exact ⟨hpc, .inr ⟨hrecorded, rfl⟩⟩

end Senders

/-! ### Runs -/

section Runs

variable {cfg : ConsumerConfig} {s : Consumer} {e : ConsumerEvent} {i : ℕ}
  {ok : FlowContext → FlowOp → Prop}

lemma core_consumerStep_none (h : (s.move cfg e).op = none) :
    (consumerStep cfg s e).core = s.core := by
  rw [consumerStep, h]
  rfl

lemma core_consumerStep_some {op : CoreOp} (h : (s.move cfg e).op = some op) :
    (consumerStep cfg s e).core = coreStep cfg s.core op := by
  rw [consumerStep, h]
  rfl

/-- A flow moves by the sections that the step enters. -/
lemma flows_consumerStep (cfg : ConsumerConfig) (s : Consumer) (e : ConsumerEvent) (i : ℕ) :
    (consumerStep cfg s e).core.flows i = flowRun cfg (s.core.flows i) (s.sections cfg i e) := by
  rw [Consumer.sections]
  split
  · rename_i op hop
    rw [core_consumerStep_some hop, coreStep, Core.apply_flows]
    by_cases hi : (s.core.move op).flow = i
    · rw [if_pos hi, if_pos hi.symm]
    · rw [if_neg hi, if_neg fun h => hi h.symm]
      rfl
  · rename_i hop
    rw [core_consumerStep_none hop]
    rfl

lemma sections_onFlow {op : FlowOp} (h : (s.move cfg e).op = some (.onFlow i op)) :
    s.sections cfg i e = [op] := by
  rw [Consumer.sections, h]
  exact if_pos rfl

lemma flows_onFlow {op : FlowOp} (h : (s.move cfg e).op = some (.onFlow i op)) :
    (consumerStep cfg s e).core.flows i = flowStep cfg (s.core.flows i) op := by
  rw [flows_consumerStep, sections_onFlow h]
  rfl

lemma mem_sections {fop : FlowOp} (h : fop ∈ s.sections cfg i e) :
    ∃ op, (s.move cfg e).op = some op ∧ (s.core.move op).flow = i
      ∧ fop ∈ (s.core.move op).ops := by
  rw [Consumer.sections] at h
  split at h
  · rename_i op hop
    split_ifs at h with hi
    · exact ⟨op, hop, hi, h⟩
    · cases h
  · cases h

/-- The reports of flow `i`. -/
def flowReports (i : ℕ) (out : List CoreOut) : List FlowOut :=
  out.filterMap fun
    | .onFlow flow report => if flow = i then some report else none
    | _ => none

lemma flowReports_append {out out' : List CoreOut} :
    flowReports i (out ++ out') = flowReports i out ++ flowReports i out' := List.filterMap_append

lemma flowReports_map_onFlow {flow : ℕ} {reports : List FlowOut} :
    flowReports i (reports.map (.onFlow flow)) = if flow = i then reports else [] := by
  rw [flowReports, List.filterMap_map]
  by_cases h : flow = i
  · simp [h]
  · simp [h]

/-- A move of the controller reports nothing of a flow. -/
lemma flowReports_out {c : Core} {op : CoreOp} {m : CoreMove} (h : c.Moves op m) :
    flowReports i m.out = [] := by
  cases h <;> rfl

/-- What flow `i` reports in a step is what the sections report that the step enters. -/
lemma flowReports_consumerStep (cfg : ConsumerConfig) (s : Consumer) (e : ConsumerEvent) (i : ℕ) :
    flowReports i (consumerHandle cfg s e).2
      = flowTrace cfg (s.core.flows i) (s.sections cfg i e) := by
  rw [consumerHandle, Consumer.sections]
  split
  · rename_i op hop
    have htrace : coreTrace cfg s.core (some op).toList
        = s.core.report cfg (s.core.move op) := List.append_nil _
    rw [hop, htrace, Core.report, flowReports_append, flowReports_out (s.core.moves op),
      List.nil_append, flowReports_map_onFlow]
    split_ifs with hi
    · rw [hi]
    · rfl
  · rename_i hop
    rw [hop]
    rfl

variable {es : List ConsumerEvent}

lemma consumerTrace_concat :
    consumerTrace cfg s (es ++ [e])
      = consumerTrace cfg s es ++ (consumerHandle cfg (consumerRun cfg s es) e).2 := by
  rw [consumerTrace, trace_append]
  congr 1
  exact List.append_nil _

lemma flowReports_onFlow {op : FlowOp} (h : (s.move cfg e).op = some (.onFlow i op)) :
    flowReports i (consumerHandle cfg s e).2 = flowOut cfg (s.core.flows i) op := by
  rw [flowReports_consumerStep, sections_onFlow h]
  exact List.append_nil _

/-- The sections of flow `i` that an event enters meet `ok` where they are entered. -/
def Consumer.Meets (cfg : ConsumerConfig) (ok : FlowContext → FlowOp → Prop) (i : ℕ) (s : Consumer)
    (e : ConsumerEvent) : Prop :=
  Steps.Guarded (flowStep cfg) ok (s.core.flows i) (s.sections cfg i e)

instance {ok : FlowContext → FlowOp → Prop} [∀ f op, Decidable (ok f op)] (i : ℕ) (s : Consumer)
    (e : ConsumerEvent) : Decidable (s.Meets cfg ok i e) := decidableGuarded _ _

/-- A condition that the quiet sections meet need only be checked where a section is asked for. -/
lemma Consumer.meets_of (hquiet : ∀ f op, op.quiet = true → ok f op)
    (hop : ∀ op, (s.move cfg e).op = some (.onFlow i op) → ok (s.core.flows i) op) :
    s.Meets cfg ok i e := by
  rw [Consumer.Meets, Consumer.sections]
  split
  · rename_i op hmove
    split_ifs with hi
    · rcases (s.core.moves op).sections with ⟨fop, hfop, hops⟩ | hall
      · rw [hfop, hi] at hmove
        rw [hops]
        exact ⟨hop fop hmove, trivial⟩
      · exact guarded_of_forall_mem (fun fop hfop f => hquiet f fop (hall fop hfop)) _
    · trivial
  · trivial

/-- A property of a flow that its sections keep, where they meet `ok`, is kept by a step that
does. -/
lemma flow_step {I : FlowContext → Prop} (hstep : ∀ f op, I f → ok f op → I (flowStep cfg f op))
    (hs : I (s.core.flows i)) (h : s.Meets cfg ok i e) :
    I ((consumerStep cfg s e).core.flows i) := by
  rw [flows_consumerStep]
  exact guarded_invariant hstep hs h

/-- The same for a property of a flow and of its reports so far. -/
lemma report_step {I : List FlowOut → FlowContext → Prop}
    (hstep : ∀ out f op, I out f → ok f op → I (out ++ flowOut cfg f op) (flowStep cfg f op))
    {out : List FlowOut} (hs : I out (s.core.flows i)) (h : s.Meets cfg ok i e) :
    I (out ++ flowReports i (consumerHandle cfg s e).2)
      ((consumerStep cfg s e).core.flows i) := by
  rw [flows_consumerStep, flowReports_consumerStep]
  exact trace_invariant hstep hs h

/-- The same for a run. -/
lemma flow_invariant {I : FlowContext → Prop}
    (hstep : ∀ f op, I f → ok f op → I (flowStep cfg f op)) (hs : I (s.core.flows i))
    (h : Steps.Guarded (consumerStep cfg) (Consumer.Meets cfg ok i) s es) :
    I ((consumerRun cfg s es).core.flows i) :=
  guarded_invariant (I := fun s => I (s.core.flows i))
    (fun _ _ hI hok => flow_step hstep hI hok) hs h

/-- A property of the consumer and of the reports of flow `i` so far, along a run. -/
lemma reports_invariant {ok : Consumer → ConsumerEvent → Prop} {I : List FlowOut → Consumer → Prop}
    (hstep : ∀ out s e, I out s → ok s e →
      I (out ++ flowReports i (consumerHandle cfg s e).2) (consumerStep cfg s e)) (hs : I [] s)
    (h : Steps.Guarded (consumerStep cfg) ok s es) :
    I (flowReports i (consumerTrace cfg s es)) (consumerRun cfg s es) := by
  refine history_invariant (I := fun es s' => I (flowReports i (consumerTrace cfg s es)) s')
    (fun es e hok hI => ?_) hs h
  rw [consumerTrace_concat, flowReports_append]
  exact hstep _ _ e hI (guarded_step hok).2

end Runs

end Mars
