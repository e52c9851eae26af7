import Mars.Consumer.Ownership

/-!
Path discovery of the consumer: when a flow can be stuck, and what it counts.

A flow sends until a tier has converged (`isPaused`) or the node has (`stopPD`); when nothing is
outstanding any more, it goes on to the next tier or is done.  That is checked where Data or a
timeout is handled, but not where a NACK is, nor where Data cannot be decoded.

* `CheckedLast`: neither of these takes the last outstanding Interest of a flow that waits for it;
* `PausesApart`: a converged tier is not reported to a flow that has stopped;
* `discovery_not_wedged`: what follows; `nack_wedges_discovery`: without the first;
* `AnswersPending`: a NACK or a timeout finds its Interest pending, or nothing outstanding;
* `outstanding_exact`: then the outstanding Interests are the pending ones;
  `undecodable_data_miscounts`: without it.
-/

namespace Mars

open FlowContext Steps Consumer Sender

variable {cfg : ConsumerConfig} {f : FlowContext} {packet : DiscoveryPacket} {op : FlowOp}

/-! ### Stuck flows -/

/-- Nothing is outstanding only if the flow still sends, or is done. -/
structure Unstuck (f : FlowContext) : Prop where
  paused : f.outstandingPD = 0 → f.isPaused = true → f.pdFinished = true
  stopped : f.outstandingPD = 0 → f.stopPD = true → f.pdFinished = true
  finished : f.pdFinished = true → f.stopPD = true

/-- A NACK, or Data that cannot be decoded, does not take the last outstanding Interest of a flow
that is paused or stopped and not done. -/
def CheckedLast (f : FlowContext) : FlowOp → Prop
  | .nack _ => f.mode = .pd → f.outstandingPD = 1 → f.isPaused = true ∨ f.stopPD = true →
      f.pdFinished = true
  | .data payload name _ => f.mode = .pd → name ∈ f.pendingSends →
      deserializeDiscovery payload = none → f.outstandingPD = 1 →
      f.isPaused = true ∨ f.stopPD = true → f.pdFinished = true
  | _ => True

/-- Data that reports a converged tier comes before the flow stops, and does not stop a paused
flow. -/
def PausesApart (f : FlowContext) : FlowOp → Prop
  | .data payload name _ => f.mode = .pd → name ∈ f.pendingSends →
      ∀ packet ∈ deserializeDiscovery payload, packet.tierConverged = true →
        f.stopPD = false ∧ (packet.nodeConverged = true → f.isPaused = false)
  | _ => True

instance (f : FlowContext) : ∀ op, Decidable (CheckedLast f op)
  | .nack _ => inferInstanceAs (Decidable (_ → _ → _ → _))
  | .data _ _ _ => inferInstanceAs (Decidable (_ → _ → _ → _ → _ → _))
  | .record _ _ _ _ | .queueRetransmission _ | .queueRepair _ | .repairOutcome _ _ | .pop
  | .install _ _ _ | .shadowRTO _ _ | .dtRTO | .scan _ | .timeout _ | .pdTick | .setRate _
  | .switch _ => isTrue trivial

instance (f : FlowContext) : ∀ op, Decidable (PausesApart f op)
  | .data _ _ _ => inferInstanceAs (Decidable (_ → _ → ∀ packet ∈ _, _ → _))
  | .record _ _ _ _ | .queueRetransmission _ | .queueRepair _ | .repairOutcome _ _ | .pop
  | .install _ _ _ | .shadowRTO _ _ | .dtRTO | .scan _ | .nack _ | .timeout _ | .pdTick | .setRate _
  | .switch _ => isTrue trivial

/-- The check of `checkPdState` leaves no flow stuck. -/
lemma unstuck_checkPdState (hfinished : f.pdFinished = true → f.stopPD = true) :
    Unstuck (f.checkPdState cfg) := by
  rw [checkPdState]
  split_ifs with hstop hpaused
  · exact ⟨fun _ _ => rfl, fun _ _ => rfl, fun _ => hstop.1⟩
  · refine ⟨fun _ hfalse => ?_, fun hzero hs => ?_, hfinished⟩
    · cases hfalse
    · exact absurd ⟨hs, hzero⟩ hstop
  · exact ⟨fun hzero hp => absurd ⟨hp, hzero⟩ hpaused, fun hzero hs => absurd ⟨hs, hzero⟩ hstop,
      hfinished⟩

/-- An Interest that is taken without the check: it must not be the last one. -/
lemma Unstuck.completePD (h : Unstuck f) {name : Name}
    (hlast : f.outstandingPD = 1 → f.isPaused = true ∨ f.stopPD = true → f.pdFinished = true) :
    Unstuck (f.completePD name) := by
  have hcases : f.outstandingPD - 1 = 0 → f.outstandingPD = 0 ∨ f.outstandingPD = 1 := by omega
  refine ⟨fun hzero hp => ?_, fun hzero hs => ?_, h.finished⟩
  · rcases hcases hzero with h0 | h1
    · exact h.paused h0 hp
    · exact hlast h1 (.inl hp)
  · rcases hcases hzero with h0 | h1
    · exact h.stopped h0 hs
    · exact hlast h1 (.inr hs)

lemma stopPD_observeDiscovery (h : f.stopPD = true) :
    (f.observeDiscovery packet).stopPD = true := by
  simp only [observeDiscovery]
  split_ifs <;> simp [h]

lemma pdFinished_observeDiscovery : (f.observeDiscovery packet).pdFinished = f.pdFinished := by
  simp only [observeDiscovery]
  split_ifs <;> rfl

lemma Unstuck.of_sameFlags {f' : FlowContext} (h : Unstuck f) (hsame : SameFlags f f') :
    Unstuck f' where
  paused := by
    rw [hsame.isPaused, hsame.outstandingPD, hsame.pdFinished]
    exact h.paused
  stopped := by
    rw [hsame.stopPD, hsame.outstandingPD, hsame.pdFinished]
    exact h.stopped
  finished := by
    rw [hsame.stopPD, hsame.pdFinished]
    exact h.finished

lemma unstuck_step (h : Discovering f ∧ Unstuck f) (hop : CheckedLast f op) :
    Discovering (flowStep cfg f op) ∧ Unstuck (flowStep cfg f op) := by
  refine ⟨discovering_step h.1, ?_⟩
  obtain ⟨-, hstep⟩ | ⟨hmode, hstep⟩ := flowStep_cases h.1
  · exact h.2.of_sameFlags hstep.sameFlags
  · generalize flowStep cfg f op = f' at hstep ⊢
    cases hstep with
    | quiet hquiet hframe => exact h.2.of_sameFlags hframe.sameFlags
    | recorded name seq now isRetransmission =>
      cases isRetransmission with
      | true => exact h.2.of_sameFlags ⟨rfl, rfl, rfl, rfl⟩
      | false => exact ⟨fun hzero => absurd hzero (Nat.succ_ne_zero _),
          fun hzero => absurd hzero (Nat.succ_ne_zero _), h.2.finished⟩
    | nack name => exact h.2.completePD (hop hmode)
    | timeout name => exact unstuck_checkPdState h.2.finished
    | ignored => exact h.2
    | undecodable hpending hnone => exact h.2.completePD (hop hmode hpending hnone)
    | observed =>
      refine unstuck_checkPdState fun hfinished => stopPD_observeDiscovery ?_
      rw [pdFinished_observeDiscovery] at hfinished
      exact h.2.finished hfinished
    | pdTick rehearsal | switch now => exact h.2.of_sameFlags ⟨rfl, rfl, rfl, rfl⟩

/-- A flow that has stopped is not paused. -/
def Apart (f : FlowContext) : Prop := f.stopPD = true → f.isPaused = false

lemma apart_checkPdState (h : Apart f) : Apart (f.checkPdState cfg) := by
  rw [checkPdState]
  split_ifs
  · exact h
  · exact fun _ => rfl
  · exact h

lemma apart_observeDiscovery (h : Apart f) (hpacket : packet.tierConverged = true →
      f.stopPD = false ∧ (packet.nodeConverged = true → f.isPaused = false)) :
    Apart (f.observeDiscovery packet) := by
  rw [Apart] at h ⊢
  simp only [observeDiscovery]
  -- what is left is a finite question about the two flags of the flow and of the packet
  cases hstop : f.stopPD <;> cases hpaused : f.isPaused <;> cases htier : packet.tierConverged <;>
    cases hnode : packet.nodeConverged <;> cases hrehearsed : f.hasRehearsed <;> simp_all

lemma apart_step (h : Discovering f ∧ Apart f) (hop : PausesApart f op) :
    Discovering (flowStep cfg f op) ∧ Apart (flowStep cfg f op) := by
  refine ⟨discovering_step h.1, ?_⟩
  have hsame : ∀ {f' : FlowContext}, SameFlags f f' → Apart f' := by
    intro f' hsame
    rw [Apart, hsame.stopPD, hsame.isPaused]
    exact h.2
  obtain ⟨-, hstep⟩ | ⟨hmode, hstep⟩ := flowStep_cases h.1
  · exact hsame hstep.sameFlags
  · generalize flowStep cfg f op = f' at hstep ⊢
    cases hstep with
    | quiet hquiet hframe => exact hsame hframe.sameFlags
    | timeout name => exact apart_checkPdState h.2
    | observed hpending hpacket =>
      exact apart_checkPdState
        (apart_observeDiscovery (f := f.completePD _) h.2 (hop hmode hpending _ hpacket))
    | _ => exact h.2

lemma unstuck_new {i : ℕ} {now : Time} :
    Discovering (newFlowContext cfg i now) ∧ Unstuck (newFlowContext cfg i now)
      ∧ Apart (newFlowContext cfg i now) := by
  rw [newFlowContext]
  cases cfg.initialMode with
  | pd | dt => exact ⟨fun _ => rfl, ⟨fun _ h => h, fun _ h => h, fun h => h⟩, fun _ => rfl⟩

/-- If a NACK or undecodable Data never takes the last outstanding Interest of a flow that waits for
it, a flow with nothing outstanding that is paused or stopped is done. -/
lemma stuck_only_when_done {now : Time} {i : ℕ} {es : List ConsumerEvent}
    (h : Guarded (consumerStep cfg) (Meets cfg CheckedLast i) (.new cfg now) es) :
    Unstuck ((consumerRun cfg (.new cfg now) es).core.flows i) :=
  (flow_invariant (I := fun f => Discovering f ∧ Unstuck f) (fun _ _ hf hop => unstuck_step hf hop)
    ⟨unstuck_new.1, unstuck_new.2.1⟩ h).2

lemma apart_run {now : Time} {i : ℕ} {es : List ConsumerEvent}
    (h : Guarded (consumerStep cfg) (Meets cfg PausesApart i) (.new cfg now) es) :
    Apart ((consumerRun cfg (.new cfg now) es).core.flows i) :=
  (flow_invariant (I := fun f => Discovering f ∧ Apart f) (fun _ _ hf hop => apart_step hf hop)
    ⟨unstuck_new.1, unstuck_new.2.2⟩ h).2

/-- **Path discovery does not wedge**, in every run in which a NACK or undecodable Data never takes
the last outstanding Interest of a flow that waits for it, and a converged tier is never reported to
a stopped flow, nor together with the end to a paused one. -/
theorem discovery_not_wedged (cfg : ConsumerConfig) (now : Time) (i : ℕ)
    (es : List ConsumerEvent)
    (hchecked : Guarded (consumerStep cfg) (Meets cfg CheckedLast i) (.new cfg now) es)
    (hapart : Guarded (consumerStep cfg) (Meets cfg PausesApart i) (.new cfg now) es) :
    let f := (consumerRun cfg (.new cfg now) es).core.flows i
    ¬ (f.outstandingPD = 0 ∧ f.rehearsalCount = 0 ∧ f.isPaused = true)
      ∧ ¬ (f.outstandingPD = 0 ∧ f.stopPD = true ∧ f.pdFinished = false) := by
  intro f
  have hunstuck : Unstuck f := stuck_only_when_done hchecked
  refine ⟨?_, ?_⟩
  · rintro ⟨hzero, -, hpaused⟩
    have hstop : f.stopPD = true := hunstuck.finished (hunstuck.paused hzero hpaused)
    rw [apart_run hapart hstop] at hpaused
    cases hpaused
  · rintro ⟨hzero, hstop, hfinished⟩
    rw [hunstuck.stopped hzero hstop] at hfinished
    cases hfinished

/-- A tick, and the steps of the sender for two Interests. -/
def sendTwo : List ConsumerEvent :=
  .tick 0 (2 * millisecond) :: List.replicate 12 (.advance 0 (2 * millisecond) true)

/-- The run on two Interests that are both answered by Data, which reports that the tier has
converged: the flow goes on to the next tier. -/
theorem discovery_not_wedged_two :
    let es := sendTwo ++ [.callback 1 (.data [1, 0]) (3 * millisecond),
      .callback 0 (.data [1, 0]) (4 * millisecond)]
    let f := (consumerRun (soleConsumer .pd) (.new (soleConsumer .pd) 0) es).core.flows 0
    f.currentTier = 1 ∧ ¬ (f.outstandingPD = 0 ∧ f.rehearsalCount = 0 ∧ f.isPaused = true)
      ∧ ¬ (f.outstandingPD = 0 ∧ f.stopPD = true ∧ f.pdFinished = false) := by
  intro es f
  refine ⟨by decide +kernel, discovery_not_wedged (soleConsumer .pd) 0 0 es ?_ ?_⟩
  · decide +kernel
  · decide +kernel

/-- Data for the first Interest reports that the tier has converged, and the second one is answered
by a NACK: the flow has not finished, nothing is outstanding, no callback is to come and the flow
does not send. -/
theorem nack_wedges_discovery :
    let es := sendTwo ++ [.callback 1 (.data [1, 0]) (3 * millisecond),
      .callback 0 .nack (4 * millisecond), .task 0, .task 0]
    let s := consumerRun (soleConsumer .pd) (.new (soleConsumer .pd) 0) es
    let f := s.core.flows 0
    s.driver.attempts = [] ∧ s.driver.tasks = [] ∧ f.mode = .pd ∧ f.outstandingPD = 0
      ∧ f.rehearsalCount = 0 ∧ f.isPaused = true ∧ f.pdFinished = false
      ∧ f.pendingSends.size = 0 := by
  decide +kernel

/-! ### Outstanding Interests -/

/-- A NACK or a timeout finds its Interest pending, or nothing outstanding. -/
def AnswersPending (f : FlowContext) : FlowOp → Prop
  | .nack name | .timeout name => f.mode = .pd → name ∈ f.pendingSends ∨ f.outstandingPD = 0
  | _ => True

instance (f : FlowContext) : ∀ op, Decidable (AnswersPending f op)
  | .nack _ | .timeout _ => inferInstanceAs (Decidable (_ → _))
  | .record _ _ _ _ | .queueRetransmission _ | .queueRepair _ | .repairOutcome _ _ | .pop
  | .install _ _ _ | .shadowRTO _ _ | .dtRTO | .scan _ | .data _ _ _ | .pdTick | .setRate _
  | .switch _ => isTrue trivial

/-- The Interest that is recorded in path discovery is a new one. -/
def RecordsNew (f : FlowContext) : FlowOp → Prop
  | .record name _ _ isRetransmission => f.mode = .pd →
      isRetransmission = false ∧ name ∉ f.pendingSends
  | _ => True

/-- The flow counts its outstanding Interests. -/
def Exact (f : FlowContext) : Prop := f.mode = .pd → f.outstandingPD = f.pendingSends.size

lemma Exact.completePD (h : Exact f) (hmode : f.mode = .pd) {name : Name}
    (hname : name ∈ f.pendingSends ∨ f.outstandingPD = 0) :
    (f.completePD name).outstandingPD = (f.completePD name).pendingSends.size := by
  have hcount := h hmode
  change f.outstandingPD - 1 = (f.pendingSends.erase name).size
  rcases hname with hmem | hzero
  · have hsize := AList.size_erase_of_mem hmem
    omega
  · rw [hzero] at hcount
    rw [AList.size_eq_zero.mp hcount.symm, hzero]
    rfl

lemma size_checkPdState : (f.checkPdState cfg).outstandingPD = f.outstandingPD
    ∧ (f.checkPdState cfg).pendingSends = f.pendingSends := by
  obtain ⟨finished, tier, paused, base, heq⟩ := checkPdState_eq f
  rw [heq]
  exact ⟨rfl, rfl⟩

lemma size_observeDiscovery :
    (f.observeDiscovery packet).outstandingPD = f.outstandingPD
      ∧ (f.observeDiscovery packet).pendingSends = f.pendingSends
      ∧ (f.observeDiscovery packet).currentTier = f.currentTier
      ∧ (f.observeDiscovery packet).pdFinished = f.pdFinished := by
  obtain ⟨paused, stop, rehearsed, count, heq⟩ := observeDiscovery_eq f packet
  rw [heq]
  exact ⟨rfl, rfl, rfl, rfl⟩

lemma exact_step (h : Discovering f ∧ Exact f) (hop : AnswersPending f op ∧ RecordsNew f op) :
    Discovering (flowStep cfg f op) ∧ Exact (flowStep cfg f op) := by
  refine ⟨discovering_step h.1, ?_⟩
  obtain ⟨hmode, hstep⟩ | ⟨hmode, hstep⟩ := flowStep_cases h.1
  · intro hpd
    rw [hstep.mode_eq hmode] at hpd
    cases hpd
  · generalize flowStep cfg f op = f' at hstep ⊢
    intro hpd
    cases hstep with
    | quiet hquiet hframe =>
      rw [hframe.outstandingPD, hframe.pendingSends]
      exact h.2 hmode
    | recorded name seq now isRetransmission =>
      obtain ⟨rfl, hnew⟩ := hop.2 hmode
      exact (congrArg Nat.succ (h.2 hmode)).trans (AList.size_insert_of_notMem hnew).symm
    | nack name => exact h.2.completePD hmode (hop.1 hmode)
    | timeout name =>
      rw [size_checkPdState.1, size_checkPdState.2]
      exact h.2.completePD hmode (hop.1 hmode)
    | ignored | pdTick rehearsal => exact h.2 hmode
    | undecodable hpending => exact h.2.completePD hmode (.inl hpending)
    | observed hpending =>
      rw [size_checkPdState.1, size_checkPdState.2, size_observeDiscovery.1,
        size_observeDiscovery.2.1]
      exact h.2.completePD hmode (.inl hpending)
    | switch now => cases hpd

/-- A tier, or the whole discovery, ends only when nothing is outstanding. -/
lemma outstandingPD_checkPdState (cfg : ConsumerConfig)
    (h : (f.checkPdState cfg).currentTier ≠ f.currentTier
      ∨ (f.checkPdState cfg).pdFinished ≠ f.pdFinished) : f.outstandingPD = 0 := by
  rw [checkPdState] at h
  split_ifs at h with hstop hpaused
  · exact hstop.2
  · exact hpaused.2
  · rcases h with h | h <;> exact absurd rfl h

lemma ends_when_empty (h : Discovering f ∧ Exact f) (hmode : f.mode = .pd)
    (hop : AnswersPending f op) (hends : (flowStep cfg f op).currentTier ≠ f.currentTier
      ∨ (flowStep cfg f op).pdFinished ≠ f.pdFinished) :
    (flowStep cfg f op).pendingSends.size = 0 := by
  have hstep : PdStep cfg f op (flowStep cfg f op) := pdStep_flowStep hmode (h.1 hmode)
  generalize flowStep cfg f op = f' at hstep hends ⊢
  have hsame : ¬ (f.currentTier ≠ f.currentTier ∨ f.pdFinished ≠ f.pdFinished) := by simp
  cases hstep with
  | quiet hquiet hframe =>
    rw [hframe.currentTier, hframe.pdFinished] at hends
    exact absurd hends hsame
  | timeout name =>
    rw [size_checkPdState.2, ← h.2.completePD hmode (hop hmode)]
    exact outstandingPD_checkPdState cfg hends
  | @observed _ name _ packet hpending =>
    obtain ⟨hout, hpend, htier, hfin⟩ := size_observeDiscovery (f := f.completePD name)
    rw [size_checkPdState.2, hpend, ← h.2.completePD hmode (.inl hpending), ← hout]
    refine outstandingPD_checkPdState cfg ?_
    rw [htier, hfin]
    exact hends
  | _ => exact absurd hends hsame

/-- The last sequence that a sender has recorded, during path discovery. -/
def Sender.lastRecorded (sender : Sender) : ℤ :=
  match sender.pc with
  | .chosen _ _ | .named _ _ _ => sender.sequenceNum - 1
  | _ => sender.sequenceNum

/-- The sequence that a sender has taken, and not yet recorded, is the last one. -/
def Sender.TakesLast (sender : Sender) : Prop :=
  match sender.pc with
  | .chosen seq _ | .named _ seq _ => seq = sender.sequenceNum
  | _ => True

/-- During path discovery, sequences are recorded in order. -/
structure InOrder (cfg : ConsumerConfig) (i : ℕ) (s : Consumer) : Prop where
  idle : s.driver.starters i = .idle
  unsignalled : (s.driver.senders i).resetSignal = false
  takesLast : (s.driver.senders i).TakesLast
  below : ∀ k mode name, cfg.Names i k mode name → name ∈ (s.core.flows i).pendingSends →
    k ≤ (s.driver.senders i).lastRecorded

lemma Sender.lastRecorded_of_idle {sender : Sender} (h : sender.pc.idle = true) :
    sender.lastRecorded = sender.sequenceNum ∧ sender.TakesLast := by
  rw [lastRecorded, TakesLast]
  cases hpc : sender.pc <;> rw [hpc] at h <;> first | exact ⟨rfl, trivial⟩ | cases h

section Counting

variable {s : Consumer} {e : ConsumerEvent} {i : ℕ}

/-- A step of a sender in path discovery goes on in order. -/
lemma SenderStep.inOrder {op : Option CoreOp} {sender : Sender}
    (h : SenderStep cfg s e i op sender) (hs : InOrder cfg i s) (howned : Owned cfg s)
    (hmode : (s.core.flows i).mode = .pd) :
    sender.resetSignal = false ∧ sender.TakesLast
      ∧ (s.driver.senders i).lastRecorded ≤ sender.lastRecorded
      ∧ ∀ name seq now isRetransmission,
        op = some (.onFlow i (.record name seq now isRetransmission)) →
          isRetransmission = false ∧ (s.driver.senders i).lastRecorded < seq
            ∧ seq ≤ sender.lastRecorded := by
  have hreset := hs.unsignalled
  have htakes := hs.takesLast
  have hpcOwned := (howned.senders i).pc
  have hnotRetx : ∀ {b : Bool}, (b = true → (s.core.flows i).mode = .dt) → b = false := by
    intro b hb
    cases b with
    | false => rfl
    | true =>
      rw [hmode] at hb
      cases hb rfl
  cases h with
  | idle hidle hidle' hseq hsignal | pdTick _ hidle hidle' hseq hsignal =>
    obtain ⟨hlast, -⟩ := lastRecorded_of_idle hidle
    obtain ⟨hlast', htakes'⟩ := lastRecorded_of_idle hidle'
    exact ⟨hsignal.trans hreset, htakes', (hlast.trans hseq.symm).trans hlast'.symm |>.le,
      by rintro _ _ _ _ ⟨⟩⟩
  | reset now hpc hsignal =>
    rw [hreset] at hsignal
    cases hsignal
  | popNone hpc | addNone hpc | addBegin hpc =>
    simp only [lastRecorded, TakesLast, hpc]
    exact ⟨hreset, trivial, le_rfl, by rintro _ _ _ _ ⟨⟩⟩
  | pop hpc hpop =>
    have hdt := ((howned.core.named i).popped hpop).2
    rw [hmode] at hdt
    cases hdt
  | choose hpc | skip hpc =>
    simp only [lastRecorded, TakesLast, hpc]
    exact ⟨hreset, trivial, by omega, by rintro _ _ _ _ ⟨⟩⟩
  | name hpc =>
    simp only [TakesLast, hpc] at htakes
    simp only [lastRecorded, TakesLast, hpc]
    exact ⟨hreset, htakes, le_rfl, by rintro _ _ _ _ ⟨⟩⟩
  | refuse now hpc | record now hpc =>
    simp only [TakesLast, hpc] at htakes
    rw [hpc] at hpcOwned
    simp only [lastRecorded, TakesLast, hpc]
    refine ⟨hreset, trivial, by omega, ?_⟩
    rintro _ _ _ _ ⟨⟩
    exact ⟨hnotRetx hpcOwned.2, by omega, by omega⟩

/-- A step of the consumer in path discovery goes on in order. -/
lemma Consumer.Moves.inOrder {m : ConsumerMove} (hm : s.Moves cfg e m) (hs : InOrder cfg i s)
    (howned : Owned cfg s) (hmode : (s.core.flows i).mode = .pd) :
    (m.driver.senders i).resetSignal = false ∧ (m.driver.senders i).TakesLast
      ∧ (s.driver.senders i).lastRecorded ≤ (m.driver.senders i).lastRecorded
      ∧ ∀ name seq now isRetransmission,
        m.op = some (.onFlow i (.record name seq now isRetransmission)) →
          isRetransmission = false ∧ (s.driver.senders i).lastRecorded < seq
            ∧ seq ≤ (m.driver.senders i).lastRecorded := by
  have hcases := hm.sender_cases i
  generalize m.driver.senders i = sender at hcases ⊢
  generalize m.op = op at hcases ⊢
  cases hcases with
  | stay hop =>
    refine ⟨hs.unsignalled, hs.takesLast, le_rfl, ?_⟩
    rintro name seq now isRetransmission rfl
    cases hop _ rfl
  | step hstep => exact hstep.inOrder hs howned hmode
  | addEnd now hpc =>
    simp only [lastRecorded, TakesLast, hpc]
    exact ⟨hs.unsignalled, trivial, le_rfl, by rintro _ _ _ _ ⟨⟩⟩
  | signal hswitched =>
    rw [hs.idle] at hswitched
    cases hswitched

lemma Consumer.Moves.starters_idle {m : ConsumerMove} (hm : s.Moves cfg e m)
    (hidle : s.driver.starters i = .idle)
    (hswitch : ∀ now, m.op ≠ some (.onFlow i (.switch now))) : m.driver.starters i = .idle := by
  cases hm with
  | @start j now =>
    have hij : i ≠ j := fun hij => hswitch now (by rw [hij])
    exact (Function.update_of_ne hij _ _).trans hidle
  | @signal j hswitched =>
    have hij : i ≠ j := by
      rintro rfl
      rw [hidle] at hswitched
      cases hswitched
    exact (Function.update_of_ne hij _ _).trans hidle
  | _ => exact hidle

/-- What a flow in path discovery counts, with what its sender has recorded. -/
structure Counted (cfg : ConsumerConfig) (i : ℕ) (s : Consumer) : Prop where
  owned : Owned cfg s
  exact : Exact (s.core.flows i)
  inOrder : (s.core.flows i).mode = .pd → InOrder cfg i s

lemma counted_step (h : Counted cfg i s) (hop : s.Meets cfg AnswersPending i e) :
    Counted cfg i (consumerStep cfg s e) := by
  have howned := h.owned
  cases hmode : (s.core.flows i).mode with
  | dt =>
    have hmode' : ((consumerStep cfg s e).core.flows i).mode = .dt :=
      mode_dt_consumerStep i hmode
    refine ⟨howned.step, fun hpd => ?_, fun hpd => ?_⟩ <;>
    · rw [hmode'] at hpd
      cases hpd
  | pd =>
    have hs := h.inOrder hmode
    obtain ⟨hreset, htakes, hle, hrecords⟩ := (s.moves cfg e).inOrder hs howned hmode
    have hnew : s.Meets cfg RecordsNew i e := by
      refine meets_of (fun f op hquiet => ?_) fun op hop => ?_
      · cases op <;> trivial
      · cases op with
        | record name seq now isRetransmission =>
          intro _
          obtain ⟨hfresh, hlt, -⟩ := hrecords _ _ _ _ hop
          refine ⟨hfresh, fun hmem => ?_⟩
          have hnames := (((s.moves cfg e).op_owned howned hop)).2
          exact absurd (hs.below _ _ _ hnames hmem) (not_le.mpr hlt)
        | _ => trivial
    refine ⟨howned.step, ?_, fun hpd => ⟨?_, hreset, htakes, fun k mode name hnames hmem => ?_⟩⟩
    · exact (flow_step (I := fun f => Discovering f ∧ Exact f) (fun _ _ hf hok => exact_step hf hok)
        ⟨howned.core.discovering i, h.exact⟩ (Guarded.and hop hnew)).2
    · refine (s.moves cfg e).starters_idle hs.idle fun now hswitch => ?_
      rw [flows_onFlow hswitch] at hpd
      cases hpd
    · rcases howned.mem_pendingSends hmem with hold | ⟨seq, now, isRetransmission, hrecord⟩
      · exact (hs.below k mode name hnames hold).trans hle
      · have hnames' := ((s.moves cfg e).op_owned howned hrecord).2
        rw [(hnames.unique hnames').2]
        exact (hrecords _ _ _ _ hrecord).2.2

end Counting

/-- **Outstanding Interests are counted exactly**, in every run in which a NACK or a timeout finds
its Interest pending or nothing outstanding: in path discovery, `OutstandingPD` is the number of
names in `pendingSends`, and a section that ends a tier or the discovery leaves nothing pending. -/
theorem outstanding_exact (cfg : ConsumerConfig) (now : Time) (i : ℕ) (es : List ConsumerEvent)
    (h : Guarded (consumerStep cfg) (Meets cfg AnswersPending i) (.new cfg now) es) :
    let f := (consumerRun cfg (.new cfg now) es).core.flows i
    f.mode = .pd →
      f.outstandingPD = f.pendingSends.size
        ∧ ∀ op, AnswersPending f op →
          (flowStep cfg f op).currentTier ≠ f.currentTier
            ∨ (flowStep cfg f op).pdFinished ≠ f.pdFinished →
          (flowStep cfg f op).pendingSends.size = 0 := by
  intro f hmode
  have hcounted : Counted cfg i (consumerRun cfg (.new cfg now) es) := by
    refine guarded_invariant (I := Counted cfg i) (fun s e hs hok => counted_step hs hok) ?_ h
    refine ⟨owned_new cfg now, ?_, fun _ => ⟨rfl, rfl, trivial, fun k mode name _ hmem => ?_⟩⟩
    · simp only [Exact, new, newFlowContext]
      cases cfg.initialMode <;> exact fun _ => rfl
    · simp only [new, newFlowContext] at hmem
      cases hinit : cfg.initialMode <;> rw [hinit] at hmem <;>
        exact absurd hmem (AList.notMem_empty name)
  have hexact : Discovering f ∧ Exact f := ⟨hcounted.owned.core.discovering i, hcounted.exact⟩
  exact ⟨hexact.2 hmode, fun op hop hends => ends_when_empty hexact hmode hop hends⟩

/-- Two Interests, of which the first is answered and the second times out. -/
theorem outstanding_exact_two :
    let es := sendTwo ++ [.callback 1 (.data [1, 0]) (3 * millisecond),
      .callback 0 .timeout (3 * millisecond), .task 0, .expire (300 * millisecond),
      .expire (300 * millisecond), .task 0]
    let f := (consumerRun (soleConsumer .pd) (.new (soleConsumer .pd) 0) es).core.flows 0
    f.currentTier = 1 ∧ f.outstandingPD = f.pendingSends.size := by
  intro es f
  refine ⟨by decide +kernel, (outstanding_exact (soleConsumer .pd) 0 0 es ?_ ?_).1⟩
  · decide +kernel
  · decide +kernel

/-- Data for the first of two Interests cannot be decoded.  The Interest is no longer pending, but
its timer expires all the same, and is counted a second time: one Interest is pending and none is
outstanding. -/
theorem undecodable_data_miscounts :
    let es := sendTwo ++ [.callback 1 (.data []) (3 * millisecond), .expire (300 * millisecond),
      .task 0]
    let f := (consumerRun (soleConsumer .pd) (.new (soleConsumer .pd) 0) es).core.flows 0
    f.mode = .pd ∧ f.outstandingPD = 0 ∧ f.pendingSends.size = 1 := by
  decide +kernel

end Mars
