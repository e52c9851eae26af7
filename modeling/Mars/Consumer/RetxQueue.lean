import Mars.Consumer.Sections

/-!
The retransmission queue of a flow.

* `RetxWf`: every marker has an entry that is still to be looked at;
* `retxWf_flowStep`, `retxWf_flowRun`: every section keeps it;
* `retx_queue_exact`: no marker is lost, and `PopRetransmission` returns the due sequence with the
  oldest entry.
-/

namespace Mars

open FlowContext List

variable {cfg : ConsumerConfig} {f f' : FlowContext}

/-- The markers of the queue have entries. -/
structure RetxWf (f : FlowContext) : Prop where
  head : f.retxHead ≤ f.retxQueue.length
  marked : ∀ k ∈ f.retxQueued, k ∈ f.retxRest

/-- `f'` has the queue of `f`, with at most its markers. -/
structure RetxKept (f f' : FlowContext) : Prop where
  queue : f'.retxQueue = f.retxQueue
  head : f'.retxHead = f.retxHead
  queued : f'.retxQueued ⊆ f.retxQueued

lemma RetxKept.refl : RetxKept f f := ⟨rfl, rfl, subset_rfl⟩

lemma RetxKept.wf (h : RetxKept f f') (hwf : RetxWf f) : RetxWf f' where
  head := by rw [h.head, h.queue]; exact hwf.head
  marked k hk := by
    rw [retxRest, h.head, h.queue]
    exact hwf.marked k (h.queued hk)

lemma RetxWf.of_empty (hqueued : f.retxQueued = ∅) (hhead : f.retxHead = 0) : RetxWf f where
  head := hhead ▸ Nat.zero_le _
  marked k hk := by simp [hqueued] at hk

/-! ### The operations of the queue -/

namespace FlowContext

lemma retxKept_clearQueued {seq : ℤ} : RetxKept f (f.clearQueuedRetransmission seq) := by
  rw [clearQueuedRetransmission]
  split_ifs
  · exact .refl
  · exact ⟨rfl, rfl, Finset.erase_subset _ _⟩

lemma retxWf_queueRetransmissionLocked (h : RetxWf f) {seq : ℤ} :
    RetxWf (f.queueRetransmissionLocked seq).1 := by
  rw [queueRetransmissionLocked]
  split_ifs
  · exact h
  rotate_left
  · exact h
  · refine ⟨by simpa using h.head.trans (Nat.le_succ _), fun k hk => ?_⟩
    -- the new entry comes after those that are still to be looked at
    rw [retxRest, drop_append_of_le_length h.head, mem_append, mem_singleton]
    obtain rfl | hk := Finset.mem_insert.mp hk
    · exact .inr rfl
    · exact .inl (h.marked k hk)

lemma retxWf_pop (h : RetxWf f) : RetxWf f.popRetransmission.1 := by
  obtain ⟨passed, rest, queue, head, hsplit, hdrop, hle, heq, -⟩ := f.pop_spec
  rw [heq]
  refine ⟨hle, fun k hk => ?_⟩
  obtain ⟨hk, hnot⟩ := Finset.mem_sdiff.mp hk
  have hrest := h.marked k hk
  rw [hsplit, mem_append] at hrest
  rw [retxRest, hdrop]
  exact hrest.resolve_left fun hpassed => hnot (mem_toFinset.mpr hpassed)

/-- **When nothing is returned, no marker is left.** -/
lemma retxQueued_of_pop_eq_none (h : RetxWf f) (hnone : f.popRetransmission.2 = none) :
    f.popRetransmission.1.retxQueued = ∅ := by
  obtain ⟨passed, rest, queue, head, hsplit, -, -, heq, hret⟩ := f.pop_spec
  rw [hnone] at hret
  rw [hret.1, append_nil] at hsplit
  rw [heq]
  exact Finset.sdiff_eq_empty_iff_subset.mpr fun k hk =>
    mem_toFinset.mpr (hsplit ▸ h.marked k hk)

/-! ### The other sections -/

lemma retxKept_record {name : Name} {seq : ℤ} {now : Time} {isRetransmission : Bool} :
    RetxKept f (f.recordInterestSend name seq now isRetransmission).1 := by
  cases hmode : f.mode with
  | dt =>
    rw [recordInterestSend_dt hmode]
    split_ifs <;> exact ⟨rfl, rfl, subset_rfl⟩
  | pd =>
    rw [recordInterestSend_pd hmode]
    exact ⟨rfl, rfl, subset_rfl⟩

lemma retxKept_checkPdState (cfg : ConsumerConfig) (f : FlowContext) :
    RetxKept f (f.checkPdState cfg) := by
  obtain ⟨_, _, _, _, heq⟩ := checkPdState_eq f
  rw [heq]
  exact ⟨rfl, rfl, subset_rfl⟩

lemma retxKept_observed (packet : DiscoveryPacket) :
    RetxKept f ((f.observeDiscovery packet).checkPdState cfg) := by
  obtain ⟨_, _, _, _, heq⟩ := observeDiscovery_eq f packet
  have hkept := retxKept_checkPdState cfg (f.observeDiscovery packet)
  rw [heq] at hkept ⊢
  exact { hkept with }

lemma retxKept_data {payload : List ℕ} {name : Name} {now : Time} :
    RetxKept f (f.onData cfg payload name now).1 := by
  rw [onData]
  split
  · exact .refl
  split_ifs
  · exact ⟨rfl, rfl, subset_rfl⟩
  split
  · rw [onDataPD]
    split
    · exact ⟨rfl, rfl, subset_rfl⟩
    · exact { retxKept_observed (f := f.completePD name) _ with }
  · simp only [onDataDT]
    split_ifs
    · exact { retxKept_clearQueued with }
    · exact .refl
    · exact .refl
    · obtain ⟨_, _, _, _, _, _, _, _, heq⟩ := measured_measureDT
        (f := f.completeDT cfg (extractSeqNum name) payload.length name now)
      rw [heq]
      exact { retxKept_clearQueued with }

end FlowContext

/-! ### Every section -/

/-- **A section keeps an entry for every marker.** -/
lemma retxWf_flowStep (h : RetxWf f) {op : FlowOp} : RetxWf (flowStep cfg f op) := by
  cases op with
  | queueRetransmission seq =>
    rw [flowStep, queueRetransmission]
    split_ifs
    · exact h
    · exact retxWf_queueRetransmissionLocked h
  | queueRepair candidate =>
    rw [flowStep]
    obtain ⟨outcome, -, heq⟩ | ⟨-, -, heq⟩ := f.queueShadowFastRepair_cases <;> rw [heq]
    · exact { h with }
    · exact { retxWf_queueRetransmissionLocked h with }
  | pop => exact retxWf_pop h
  | switch now => exact .of_empty rfl rfl
  | record name seq now isRetransmission =>
    exact retxKept_record.wf h
  | install seq generation isFastRepair =>
    exact retxKept_clearQueued.wf { h with }
  | data payload name now => exact retxKept_data.wf h
  | nack name =>
    rw [flowStep, onNack]
    split <;> exact { h with }
  | timeout name =>
    rw [flowStep, onTimeout]
    split
    · exact (retxKept_checkPdState cfg _).wf { h with }
    · exact { h with }
  | scan now =>
    rw [flowStep, runShadowLossScan]
    split_ifs <;> exact { h with }
  | pdTick =>
    obtain ⟨_, heq⟩ := pdTick_eq (f := f)
    rw [flowStep, heq]
    exact { h with }
  | setRate rate =>
    rw [flowStep, setRate]
    split_ifs <;> exact { h with }
  | repairOutcome candidate outcome | shadowRTO seq now | dtRTO => exact { h with }

lemma retxWf_newFlowContext {i : ℕ} {now : Time} : RetxWf (newFlowContext cfg i now) := by
  rw [newFlowContext]
  split <;> exact .of_empty rfl rfl

lemma retxWf_flowRun (h : RetxWf f) {ops : List FlowOp} : RetxWf (flowRun cfg f ops) :=
  Steps.run_invariant (I := RetxWf) (fun _ _ h => retxWf_flowStep h) h ops

/-- **The retransmission queue is exact.** After any sections of a flow, every marker has an entry
at or after the head. Compaction keeps the entries from the head on. `PopRetransmission` returns
the marked and pending sequence whose entry is the oldest, takes away the markers of the entries
up to it, and leaves the entries after it; when it returns nothing, nothing was due and no marker
is left. -/
theorem retx_queue_exact (cfg : ConsumerConfig) (i : ℕ) (now : Time) (ops : List FlowOp) :
    let f := flowRun cfg (newFlowContext cfg i now) ops
    let compacted := f.compactRetransmissionQueue
    let popped := f.popRetransmission
    (∀ k ∈ f.retxQueued, ∃ j, f.retxHead ≤ j ∧ f.retxQueue[j]? = some k)
      ∧ compacted.retxQueue.drop compacted.retxHead = f.retxQueue.drop f.retxHead
      ∧ (∀ k, popped.2 = some k → ∃ skipped rest,
        f.retxQueue.drop f.retxHead = skipped ++ k :: rest
          ∧ f.RetxDue k ∧ (∀ j ∈ skipped, ¬f.RetxDue j)
          ∧ popped.1.retxQueue.drop popped.1.retxHead = rest
          ∧ popped.1.retxQueued = f.retxQueued \ (skipped ++ [k]).toFinset)
      ∧ (popped.2 = none → popped.1.retxQueued = ∅ ∧ ∀ k, ¬f.RetxDue k) := by
  intro f compacted popped
  have hwf : RetxWf f := retxWf_flowRun retxWf_newFlowContext
  refine ⟨fun k hk => ?_, ?_, fun k hk => ?_, fun hnone => ?_⟩
  · obtain ⟨j, hj⟩ := mem_iff_getElem?.mp (hwf.marked k hk)
    rw [retxRest, getElem?_drop] at hj
    exact ⟨_, Nat.le_add_right _ _, hj⟩
  · obtain ⟨queue, head, heq, hdrop, -⟩ := compact_eq (f := f)
    rw [show compacted = _ from heq]
    exact hdrop
  · obtain ⟨passed, rest, queue, head, hsplit, hdrop, -, heq, hret⟩ := f.pop_spec
    rw [show f.popRetransmission.2 = some k from hk] at hret
    obtain ⟨skipped, rfl, hdue, hskipped⟩ := hret
    refine ⟨skipped, rest, by simpa [retxRest] using hsplit, hdue, hskipped, ?_⟩
    rw [show popped.1 = _ from heq]
    exact ⟨hdrop, rfl⟩
  · have hempty := retxQueued_of_pop_eq_none hwf hnone
    refine ⟨hempty, fun k hdue => ?_⟩
    obtain hk | hk := hdue.pop
    · simp [hempty] at hk
    · cases hnone.symm.trans hk

end Mars
