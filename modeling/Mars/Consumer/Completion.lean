import Mars.Consumer.Sections
import Mathlib.Data.Int.ConditionallyCompleteOrder
import Mathlib.Data.Int.Interval

/-!
A flow that is finished has received every sequence exactly once.

* `acceptedData`: the sequences and sizes of the Data packets that a run accepted;
* `SendsInRange`: every send is for a sequence of the transfer, under its name;
* `Transfer`: the invariant: received, pending and watched sequences are kept apart, and the
  counters agree with them; `transfer_step`: one section keeps it;
* `finished_flow_complete`: what it says about the counters and about the end of the flow.
-/

namespace Mars

open FlowContext List Prod ShadowLossDetector Finset

variable {cfg : ConsumerConfig} {f f' : FlowContext} {out : List FlowOut} {closes : ℕ}

/-- The sequences and the sizes of the Data packets that were accepted. -/
def acceptedData (out : List FlowOut) : List (ℤ × ℕ) :=
  out.filterMap fun
    | .accepted seq bytes => some (seq, bytes)
    | _ => none

@[simp] lemma acceptedData_append {out' : List FlowOut} :
    acceptedData (out ++ out') = acceptedData out ++ acceptedData out' := filterMap_append

/-- A sequence of the transfer. -/
def ConsumerConfig.InRange (cfg : ConsumerConfig) (k : ℤ) : Prop := 1 ≤ k ∧ k ≤ cfg.maxPackets

/-- The sends of a flow after `initDTState`: sequences of the transfer, under their names. -/
def SendsInRange (cfg : ConsumerConfig) (f : FlowContext) : FlowOp → Prop
  | .record name seq _ _ => name = f.interestNameForSeq seq ∧ cfg.InRange seq
  | .switch _ => False
  | _ => True

instance (cfg : ConsumerConfig) (k : ℤ) : Decidable (cfg.InRange k) :=
  inferInstanceAs (Decidable (1 ≤ k ∧ k ≤ (cfg.maxPackets : ℤ)))

instance (cfg : ConsumerConfig) (f : FlowContext) : ∀ op, Decidable (SendsInRange cfg f op)
  | .record name seq _ _ =>
    inferInstanceAs (Decidable (name = f.interestNameForSeq seq ∧ cfg.InRange seq))
  | .switch _ => isFalse id
  | .queueRetransmission _ | .queueRepair _ | .repairOutcome _ _ | .pop | .install _ _ _
  | .shadowRTO _ _ | .dtRTO | .scan _ | .nack _ | .timeout _ | .data _ _ _ | .pdTick
  | .setRate _ => isTrue trivial

/-- The state of a transfer: what was received, what is pending and what is watched. -/
structure Transfer (cfg : ConsumerConfig) (closes : ℕ) (out : List FlowOut) (f : FlowContext) :
    Prop where
  mode : f.mode = .dt
  counted : f.pktsReceivedTotal = f.receivedSeqs.card
  nodup : ((acceptedData out).map fst).Nodup
  accepted : ∀ k, k ∈ (acceptedData out).map fst ↔ k ∈ f.receivedSeqs
  bytes : f.totalBytes = ((acceptedData out).map snd).sum
  range : ∀ k ∈ f.receivedSeqs, cfg.InRange k
  pending : ∀ name ∈ f.pendingSends, ∃ k, cfg.InRange k ∧ k ∉ f.receivedSeqs
    ∧ name = f.interestNameForSeq k
  watched : ∀ k ∈ f.shadowLoss.pending, cfg.InRange k ∧ k ∉ f.receivedSeqs
  finished : f.isFinished = decide (cfg.maxPackets ≤ f.pktsReceivedTotal)
  closed : f.doneCloses = closes + if f.isFinished then 1 else 0

namespace Transfer

section

variable (h : Transfer cfg closes out f)
include h

lemma of_frame (hframe : Frame f f')
    (hwatched : ∀ k ∈ f'.shadowLoss.pending, k ∈ f.shadowLoss.pending) :
    Transfer cfg closes out f' where
  mode := hframe.mode.trans h.mode
  counted := by rw [hframe.pktsReceivedTotal, hframe.receivedSeqs, h.counted]
  nodup := h.nodup
  accepted := by
    rw [hframe.receivedSeqs]
    exact h.accepted
  bytes := hframe.totalBytes.trans h.bytes
  range := by
    rw [hframe.receivedSeqs]
    exact h.range
  pending := by
    simp only [hframe.receivedSeqs, hframe.pendingSends, hframe.interestNameForSeq]
    exact h.pending
  watched := by
    rw [hframe.receivedSeqs]
    exact fun k hk => h.watched k (hwatched k hk)
  finished := by rw [hframe.isFinished, hframe.pktsReceivedTotal, h.finished]
  closed := by rw [hframe.doneCloses, hframe.isFinished, h.closed]

/-- A send adds a pending and a watched sequence that was not received. -/
lemma record {seq : ℤ} (hrange : cfg.InRange seq)
    (hunreceived : seq ∉ f.receivedSeqs) {entry : PendingSend} {now : Time}
    {isRetransmission : Bool} {inflight : ℕ} :
    Transfer cfg closes out { f with
      pendingSends := f.pendingSends.insert (f.interestNameForSeq seq) entry
      shadowLoss := if isRetransmission then f.shadowLoss.recordRecoverySend seq
        else f.shadowLoss.recordFreshSend seq now
      maxInflight := inflight } := by
  refine { h with pending := fun name hname => ?_, watched := fun k hk => ?_ }
  · rcases (AList.mem_insert _).mp hname with rfl | hname
    · exact ⟨seq, hrange, hunreceived, rfl⟩
    · exact h.pending name hname
  · cases isRetransmission with
    | true => exact h.watched k (mem_recordRecoverySend.mp hk)
    | false =>
      rcases mem_recordFreshSend.mp hk with hk | ⟨rfl, -⟩
      · exact h.watched k hk
      · exact ⟨hrange, hunreceived⟩

/-- Fewer pending names keep the invariant. -/
lemma erase {name : Name} {queued : Finset ℤ} :
    Transfer cfg closes out
      { f with pendingSends := f.pendingSends.erase name, retxQueued := queued } :=
  { h with pending := fun name' hname => h.pending name' (AList.mem_erase.mp hname).2 }

/-- The sequence number of a pending name is the one it was sent for. -/
lemma extractSeqNum_pending {name : Name}
    (hname : name ∈ f.pendingSends) :
    cfg.InRange (extractSeqNum name) ∧ name = f.interestNameForSeq (extractSeqNum name) := by
  obtain ⟨k, hrange, -, rfl⟩ := h.pending name hname
  have hlt := cfg.maxPackets_lt
  have hk : extractSeqNum (f.interestNameForSeq k) = k :=
    extractSeqNum_seqName (by have := hrange.1; omega)
      (by have := hrange.2; omega)
  rw [hk]
  exact ⟨hrange, rfl⟩

/-- An accepted Data packet moves a sequence from pending to received. -/
lemma accept {payload : List ℕ} {name : Name} {now : Time}
    (hacc : Accepted cfg f f' payload name now) {out' : List FlowOut}
    (hout : acceptedData out' = [(extractSeqNum name, payload.length)]) :
    Transfer cfg closes (out ++ out') f' := by
  obtain ⟨hrange, hname⟩ := h.extractSeqNum_pending hacc.pending
  have hunfinished : ¬ cfg.maxPackets ≤ f.pktsReceivedTotal := by
    have hf := h.finished
    rw [hacc.unfinished] at hf
    exact of_decide_eq_false hf.symm
  have hcloses : f.doneCloses = closes := by
    rw [h.closed, hacc.unfinished]
    rfl
  constructor
  case mode => exact hacc.mode.trans h.mode
  case counted =>
    rw [hacc.pktsReceivedTotal, hacc.receivedSeqs, card_insert_of_notMem hacc.unreceived, h.counted]
  case nodup =>
    rw [acceptedData_append, hout, map_append]
    refine Nodup.append h.nodup (nodup_singleton _) ?_
    intro k hk hk'
    rw [List.mem_singleton.mp hk'] at hk
    exact hacc.unreceived ((h.accepted _).mp hk)
  case accepted =>
    intro k
    rw [acceptedData_append, hout, map_append, mem_append, h.accepted,
      hacc.receivedSeqs, mem_insert, or_comm]
    simp
  case bytes =>
    rw [acceptedData_append, hout, map_append, sum_append, ← h.bytes, hacc.totalBytes]
    rfl
  case range =>
    intro k hk
    rw [hacc.receivedSeqs, mem_insert] at hk
    rcases hk with rfl | hk
    · exact hrange
    · exact h.range k hk
  case pending =>
    intro name' hname'
    rw [hacc.pendingSends] at hname'
    obtain ⟨hne, hmem⟩ := AList.mem_erase.mp hname'
    obtain ⟨k, hk, hunreceived, hk'⟩ := h.pending name' hmem
    refine ⟨k, hk, fun hreceived => ?_, hk'.trans ?_⟩
    · rw [hacc.receivedSeqs, mem_insert] at hreceived
      rcases hreceived with heq | hreceived
      · exact hne (hk'.trans (heq ▸ hname.symm))
      · exact hunreceived hreceived
    · rw [interestNameForSeq, interestNameForSeq, hacc.baseName]
  case watched =>
    intro k hk
    rw [hacc.shadowLoss, mem_recordData] at hk
    rw [hacc.receivedSeqs, mem_insert, not_or]
    exact ⟨(h.watched k hk.2).1, hk.1, (h.watched k hk.2).2⟩
  case finished => rw [hacc.isFinished, hacc.pktsReceivedTotal]
  case closed => simp only [hacc.doneCloses, hcloses, hacc.isFinished, decide_eq_true_eq]

end

end Transfer

/-- Only Data is accepted. -/
lemma acceptedData_flowOut {op : FlowOp}
    (h : ∀ payload name now, op = .data payload name now →
      (f.onData cfg payload name now).2 = false) : acceptedData (flowOut cfg f op) = [] := by
  cases op with
  | data payload name now => simp [flowOut, acceptedData, h payload name now rfl]
  | scan now => simp [flowOut, acceptedData, filterMap_map]
  | record name seq now isRetransmission =>
    rw [flowOut]
    split_ifs <;> rfl
  | _ => rfl

/-- One section keeps the state of the transfer. -/
lemma transfer_step (h : Transfer cfg closes out f) {op : FlowOp} (hop : SendsInRange cfg f op) :
    Transfer cfg closes (out ++ flowOut cfg f op) (flowStep cfg f op) := by
  have hkeep : ∀ {f' : FlowContext}, acceptedData (flowOut cfg f op) = [] →
      Transfer cfg closes out f' → Transfer cfg closes (out ++ flowOut cfg f op) f' := by
    intro f' hout h'
    have heq : acceptedData (out ++ flowOut cfg f op) = acceptedData out := by
      rw [acceptedData_append, hout, append_nil]
    exact ⟨h'.mode, h'.counted, heq ▸ h'.nodup, heq ▸ h'.accepted, heq ▸ h'.bytes, h'.range,
      h'.pending, h'.watched, h'.finished, h'.closed⟩
  have hstep : DtStep cfg f op (flowStep cfg f op) := dtStep_flowStep h.mode
  generalize flowStep cfg f op = f' at hstep ⊢
  cases hstep with
  | quiet hquiet hframe =>
    refine hkeep (acceptedData_flowOut ?_) (h.of_frame hframe fun k =>
      ((shadowStep_of_quiet hquiet).watched hquiet).mp)
    rintro payload name now rfl
    cases hquiet
  | refused => exact hkeep (acceptedData_flowOut (by rintro _ _ _ ⟨⟩)) h
  | recorded hunfinished hunreceived =>
    obtain ⟨rfl, hrange⟩ := hop
    exact hkeep (acceptedData_flowOut (by rintro _ _ _ ⟨⟩))
      (h.record hrange hunreceived)
  | nack name => exact hkeep rfl h
  | timeout name => exact hkeep rfl (h.erase)
  | @accepted payload name now f' htrue hacc =>
    refine h.accept hacc ?_
    rw [flowOut, if_pos ⟨h.mode, htrue⟩]
    split_ifs <;> rfl
  | ignored hfalse =>
    refine hkeep (acceptedData_flowOut ?_) h
    rintro _ _ _ ⟨⟩
    exact hfalse
  | cleared hfalse =>
    refine hkeep (acceptedData_flowOut ?_) (h.erase)
    rintro _ _ _ ⟨⟩
    exact hfalse
  | pdTick rehearsal => exact hkeep rfl { h with }
  | switch now => exact hop.elim

/-- After `initDTState` nothing is received, pending or watched. -/
lemma transfer_switchToDT (f : FlowContext) (now : Time) :
    Transfer cfg f.doneCloses [] (f.switchToDT cfg now) where
  mode := rfl
  counted := rfl
  nodup := nodup_nil
  accepted := fun k => by simp [acceptedData, switchToDT, initDTState]
  bytes := rfl
  range := fun k hk => absurd hk (notMem_empty k)
  pending := fun name hname => absurd hname (AList.notMem_empty name)
  watched := fun k hk => absurd hk (AList.notMem_empty k)
  finished := (decide_eq_false (by have := cfg.maxPackets_pos; exact not_le.mpr this)).symm
  closed := rfl

lemma transfer_run {now : Time} {ops : List FlowOp}
    (h : Steps.Guarded (flowStep cfg) (SendsInRange cfg) (f.switchToDT cfg now) ops) :
    Transfer cfg f.doneCloses (flowTrace cfg (f.switchToDT cfg now) ops)
      (flowRun cfg (f.switchToDT cfg now) ops) := by
  refine Steps.history_invariant (I := fun ops f' =>
    Transfer cfg f.doneCloses (flowTrace cfg (f.switchToDT cfg now) ops) f') ?_
    (transfer_switchToDT f now) h
  intro ops op hops ih
  rw [flowTrace_concat]
  exact transfer_step ih (Steps.guarded_step hops).2

/-- All sequences of the transfer. -/
lemma Transfer.finished_iff (h : Transfer cfg closes out f) :
    f.isFinished = true ↔ f.receivedSeqs = Icc 1 (cfg.maxPackets : ℤ) := by
  have hsub : f.receivedSeqs ⊆ Icc 1 (cfg.maxPackets : ℤ) :=
    fun k hk => mem_Icc.mpr (h.range k hk)
  have hcard : (Icc 1 (cfg.maxPackets : ℤ)).card = cfg.maxPackets := by simp
  rw [h.finished, decide_eq_true_eq, h.counted]
  constructor
  · intro hle
    exact eq_of_subset_of_card_le hsub (hcard.trans_le hle)
  · intro heq
    rw [heq, hcard]

/-- What the counters of a transfer say, `out` being what the flow reported since `initDTState`
and `closes` the number of times `doneCh` was closed before.  By `first` the accepted packets are
the first valid ones of their sequences. -/
structure TransferLedger (cfg : ConsumerConfig) (closes : ℕ) (out : List FlowOut)
    (f : FlowContext) : Prop where
  counted : f.pktsReceivedTotal = f.receivedSeqs.card
  once : ((acceptedData out).map fst).Nodup
  received : ((acceptedData out).map fst).toFinset = f.receivedSeqs
  bytes : f.totalBytes = ((acceptedData out).map snd).sum
  first : ∀ payload name now, (f.onData cfg payload name now).2 = true ↔ name ∈ f.pendingSends
    ∧ f.isFinished = false ∧ deserializeData payload = true ∧ extractSeqNum name ∉ f.receivedSeqs
  rejected : ∀ payload name now, (f.onData cfg payload name now).2 = false →
    (f.onData cfg payload name now).1.pktsReceivedTotal = f.pktsReceivedTotal
      ∧ (f.onData cfg payload name now).1.receivedSeqs = f.receivedSeqs
      ∧ (f.onData cfg payload name now).1.totalBytes = f.totalBytes
  closed : f.doneCloses ≤ closes + 1
  finished : f.isFinished = true ↔ f.receivedSeqs = Icc 1 (cfg.maxPackets : ℤ)
  empty : f.isFinished = true → f.pendingSends = ∅ ∧ f.shadowLoss.pending = ∅

/-- A packet is accepted exactly if it is the first valid one of a pending sequence. -/
lemma Transfer.first (h : Transfer cfg closes out f) (payload : List ℕ) (name : Name)
    (now : Time) : (f.onData cfg payload name now).2 = true ↔ name ∈ f.pendingSends
      ∧ f.isFinished = false ∧ deserializeData payload = true
      ∧ extractSeqNum name ∉ f.receivedSeqs := by
  constructor
  · intro htrue
    obtain ⟨-, hacc⟩ | heq | ⟨-, queued, -, heq⟩ :=
      onData_dt cfg h.mode payload name now
    · exact ⟨hacc.pending, hacc.unfinished, hacc.valid, hacc.unreceived⟩
    · simp [heq] at htrue
    · simp [heq] at htrue
  · rintro ⟨hpending, hunfinished, hvalid, hunreceived⟩
    have hpositive := (h.extractSeqNum_pending hpending).1.1
    exact onData_dt_valid h.mode hpending hunfinished (by omega) hunreceived hvalid

/-- Data that is not accepted changes no counter. -/
lemma Transfer.rejected (h : Transfer cfg closes out f) {payload : List ℕ} {name : Name}
    {now : Time} (hfalse : (f.onData cfg payload name now).2 = false) :
    (f.onData cfg payload name now).1.pktsReceivedTotal = f.pktsReceivedTotal
      ∧ (f.onData cfg payload name now).1.receivedSeqs = f.receivedSeqs
      ∧ (f.onData cfg payload name now).1.totalBytes = f.totalBytes := by
  obtain ⟨htrue, -⟩ | heq | ⟨-, queued, -, heq⟩ := onData_dt cfg h.mode payload name now
  · rw [htrue] at hfalse
    cases hfalse
  · rw [heq]
    exact ⟨rfl, rfl, rfl⟩
  · rw [heq]
    exact ⟨rfl, rfl, rfl⟩

/-- **A finished flow has received every sequence exactly once**: in every order of the sections
of a flow after `initDTState`, with every send for a sequence of the transfer under its name. -/
theorem finished_flow_complete (cfg : ConsumerConfig) (f : FlowContext) (now : Time)
    (ops : List FlowOp)
    (h : Steps.Guarded (flowStep cfg) (SendsInRange cfg) (f.switchToDT cfg now) ops) :
    TransferLedger cfg f.doneCloses (flowTrace cfg (f.switchToDT cfg now) ops)
      (flowRun cfg (f.switchToDT cfg now) ops) := by
  have hrun := transfer_run h
  constructor
  case counted => exact hrun.counted
  case once => exact hrun.nodup
  case received =>
    ext k
    rw [mem_toFinset]
    exact hrun.accepted k
  case bytes => exact hrun.bytes
  case first => exact hrun.first
  case rejected => exact fun _ _ _ hfalse => hrun.rejected hfalse
  case closed =>
    rw [hrun.closed]
    split_ifs <;> omega
  case finished => exact hrun.finished_iff
  case empty =>
    intro hfinished
    have hall := hrun.finished_iff.mp hfinished
    constructor
    · rw [← AList.size_eq_zero, AList.size, length_eq_zero_iff, eq_nil_iff_forall_not_mem]
      intro name hname
      obtain ⟨k, hrange, hunreceived, -⟩ := hrun.pending name hname
      exact hunreceived (hall ▸ mem_Icc.mpr hrange)
    · rw [← AList.size_eq_zero, AList.size, length_eq_zero_iff, eq_nil_iff_forall_not_mem]
      intro k hk
      obtain ⟨hrange, hunreceived⟩ := hrun.watched k hk
      exact hunreceived (hall ▸ mem_Icc.mpr hrange)

/-- Two sequences are sent, the first one twice; a damaged packet, a duplicate and a late packet
come in between. -/
def transferOps (cfg : ConsumerConfig) (f : FlowContext) : List FlowOp :=
  let name (k : ℤ) : Name := seqName (dtBaseName f.flowPrefix cfg.nodeName) k
  let packet := replicate dataPacketSize 0
  [.record (name 1) 1 10 false, .record (name 2) 2 11 false, .data [0] (name 1) 20,
    .queueRetransmission 1, .pop, .record (name 1) 1 30 true, .data packet (name 1) 40,
    .data packet (name 1) 41, .data packet (name 2) 50, .data packet (name 2) 51]

theorem finished_flow_complete_two :
    let cfg := soleConsumer .dt
    let f := newFlowContext cfg 0 0
    let ops := transferOps cfg f
    (flowRun cfg (f.switchToDT cfg 0) ops).isFinished = true
      ∧ TransferLedger cfg f.doneCloses (flowTrace cfg (f.switchToDT cfg 0) ops)
        (flowRun cfg (f.switchToDT cfg 0) ops) :=
  ⟨by decide +kernel, finished_flow_complete _ _ _ _ (by decide +kernel)⟩

end Mars
