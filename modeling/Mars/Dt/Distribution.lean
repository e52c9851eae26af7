import Mars.Dt.Budget

/-!
How much an epoch of the scheduler hands out.

* `spreadLeftover_eq_or`: the second loop ends when nothing is left or no thread has room;
* `le_assign`: so an assignment to threads without budgets hands out all that is available, up to
  the quotas;
* `dt_distribute_grants`: an epoch hands out the whole tokens it finds, if no budget of the last one
  is unspent.

What is unspent goes back to the bucket first, and the bucket is then cut to one packet.
-/

namespace Mars

open Finset

variable {control : DtFaceControlState} {A : ℤ}

/-- The packets that an epoch hands out. -/
def handedOut (out : List DtLedger) : ℤ :=
  (out.map fun | .assigned _ packets => packets | _ => 0).sum

/-- The threads with demand. -/
def activeThreads (control : DtFaceControlState) : Finset ℕ :=
  (range control.slots).filter (0 < control.demandByThread ·)

lemma spreadLeftover_eq_or (order : List ℕ) (remaining : ℕ) (control : DtFaceControlState) :
    (spreadLeftover order remaining control).2 = remaining
      ∨ bestTid (spreadLeftover order remaining control).1 order = none := by
  induction remaining generalizing control with
  | zero => exact .inl rfl
  | succ remaining ih =>
    rw [spreadLeftover]
    cases hbest : bestTid control order with
    | none => exact .inr hbest
    | some tid =>
      refine (ih (givePacket control tid)).imp_left fun h => ?_
      dsimp only
      rw [h]
      push_cast
      rfl

/-- **An assignment hands out what is available**, unless every thread with demand has its quota. -/
lemma le_assign (hs : Sound control) (hbudget : totalDtThreadBudget control = 0)
    (hactive : (activeThreads control).Nonempty) (hA : 0 < A) {start : ℕ} :
    min A (dtThreadQuotaCapPackets * (activeThreads control).card)
      ≤ (assignDtWeightedThreadBudget control A control.slots start).2 := by
  have hW : 0 < totalWeight control := by
    obtain ⟨t, ht⟩ := hactive
    obtain ⟨hslot, hdemand⟩ := mem_filter.mp ht
    exact sum_pos' (fun _ _ => dtThreadWeight_nonneg) ⟨t, hslot, dtThreadWeight_pos_iff.mpr hdemand⟩
  have htotal := totalBudget_assign control A start
  have hsound := sound_assign hs (A := A) start
  have hframe := @assign_frame control A start
  rw [hbudget, zero_add] at htotal
  rw [assign_eq hA hW] at htotal hsound hframe ⊢
  dsimp only at htotal hsound hframe ⊢
  rcases spreadLeftover_eq_or (rrOrder control.slots start) (A - sharesGranted control A).toNat
    (afterShares control A) with hall | hnone
  · exact (min_le_left _ _).trans (by omega)
  · -- no thread has room: the budgets are the quotas of the threads with demand
    refine (min_le_right _ _).trans ?_
    obtain ⟨-, hfull⟩ := foldl_betterCarry_eq_none hnone
    generalize (spreadLeftover _ _ (afterShares control A)).1 = spread at *
    rw [← htotal, totalDtThreadBudget, mul_comm, ← nsmul_eq_mul]
    have hslots : spread.slots = control.slots := by rw [hframe]
    have hdemand : spread.demandByThread = control.demandByThread := by rw [hframe]
    calc _ ≤ ∑ t ∈ activeThreads control, spread.budgetByThread t := by
          refine card_nsmul_le_sum _ _ _ fun t ht => ?_
          obtain ⟨hslot, hpos⟩ := mem_filter.mp ht
          by_contra hroom
          have hcarry := hfull t (mem_rrOrder.mpr (mem_range.mp hslot))
            (dtThreadWeight_pos_iff.mpr (hdemand ▸ hpos)) (not_le.mp hroom)
          dsimp only at hcarry
          linarith [hsound.carry_nonneg t]
      _ ≤ _ := by
          rw [hslots]
          exact sum_le_sum_of_subset_of_nonneg (filter_subset _ _)
            fun t _ _ => hsound.budget_nonneg t

lemma handedOut_append {out out' : List DtLedger} :
    handedOut (out ++ out') = handedOut out + handedOut out' := by
  simp [handedOut]

lemma handedOut_drawGrant : handedOut (drawGrant control).2.2 = 0 := by
  simp only [drawGrant]
  split_ifs <;> rfl

/-- A grant is assigned as far as the quotas allow. -/
lemma le_handedOut_spendGrant (hs : Sound control) (hbudget : totalDtThreadBudget control = 0)
    (hactive : (activeThreads control).Nonempty) :
    min A (dtThreadQuotaCapPackets * (activeThreads control).card)
      ≤ handedOut (spendGrant control A).out := by
  unfold spendGrant
  split_ifs with hnone hidle
  · exact (min_le_left _ _).trans hnone
  · obtain ⟨t, ht⟩ := hactive
    obtain ⟨hslot, hpos⟩ := mem_filter.mp ht
    exact absurd (hidle t hslot) (not_le.mpr hpos)
  · rw [Outcome.ret_out, handedOut, List.map_singleton, List.sum_singleton]
    exact le_assign hs hbudget hactive (not_le.mp hnone)

/-- The state that the first part of an epoch leaves. -/
lemma drawGrant_reclaim_frame (hs : Sound control) :
    (drawGrant (reclaimDtThreadBudget control)).1 = { control with
      tokens := (drawGrant (reclaimDtThreadBudget control)).1.tokens
      livenessForcedPackets := (drawGrant (reclaimDtThreadBudget control)).1.livenessForcedPackets
      budgetByThread := fun _ => 0 } :=
  (drawn_drawGrant hs.reclaim.tokens_nonneg).frame.trans
    (congrArg
      (fun c : DtFaceControlState => { c with
        tokens := (drawGrant (reclaimDtThreadBudget control)).1.tokens
        livenessForcedPackets :=
          (drawGrant (reclaimDtThreadBudget control)).1.livenessForcedPackets })
      (returnPackets_frame _ _))

/-- An epoch hands out the whole tokens that are there once the unspent budgets are reclaimed. -/
lemma le_handedOut_distribute (hs : Sound control) (hactive : (activeThreads control).Nonempty) :
    min ⌊(reclaimDtThreadBudget control).tokens⌋
        (dtThreadQuotaCapPackets * (activeThreads control).card)
      ≤ handedOut (distributeDtFaceBudget control).out := by
  have hsound := sound_drawGrant hs.reclaim
  have hframe := drawGrant_reclaim_frame hs
  have hgrant : ⌊(reclaimDtThreadBudget control).tokens⌋
      ≤ (drawGrant (reclaimDtThreadBudget control)).2.1 := by
    simp only [drawGrant, truncate, if_pos hs.reclaim.tokens_nonneg]
    split_ifs <;> simp only <;> omega
  rw [distributeDtFaceBudget, Outcome.go_bind, handedOut_append, handedOut_drawGrant, zero_add]
  generalize drawGrant (reclaimDtThreadBudget control) = drawn at *
  have hsame : activeThreads drawn.1 = activeThreads control := by
    rw [hframe]
    rfl
  have hzero : totalDtThreadBudget drawn.1 = 0 := by
    rw [hframe]
    exact sum_eq_zero fun _ _ => rfl
  rw [← hsame] at hactive ⊢
  exact (min_le_min_right _ hgrant).trans (le_handedOut_spendGrant hsound hzero hactive)

/-- The state in which an epoch distributes, after any history: the bucket has been refilled. -/
def refilled (n : ℕ) (es : List DtControlEvent) (now : Time) : DtFaceControlState :=
  (refillDtFaceTokens (ensureDtControlThreadSlots n (dtControlRun n es)) now).state

/-- **An epoch hands out the whole tokens it finds**, up to the quotas of the threads with demand,
if all budgets of the last epoch are spent, or if there are fewer than two tokens. -/
theorem dt_distribute_grants (n : ℕ) (es : List DtControlEvent) (now : Time)
    (hrate : 0 < (dtControlRun n es).rate) (hdemand : 0 < totalDtThreadDemand (refilled n es now))
    (h : totalDtThreadBudget (refilled n es now) = 0 ∨ (refilled n es now).tokens < 2) :
    min ⌊(refilled n es now).tokens⌋
        (dtThreadQuotaCapPackets * (activeThreads (refilled n es now)).card)
      ≤ handedOut (distributeDtFaceBudget (refilled n es now)).out := by
  have hs : Sound (refilled n es now) :=
    sound_refill (sound_dtControlRun.ensureSlots n) hrate now
  generalize refilled n es now = control at *
  have hactive : (activeThreads control).Nonempty := by
    obtain ⟨t, ht, hpos⟩ : ∃ t ∈ range control.slots, 0 < control.demandByThread t :=
      exists_lt_of_sum_lt (by rwa [sum_const_zero])
    exact ⟨t, mem_filter.mpr ⟨ht, hpos⟩⟩
  refine le_trans (min_le_min_right _ ?_) (le_handedOut_distribute hs hactive)
  rcases hs.totalBudget_nonneg.eq_or_lt with hzero | hleft
  · rw [reclaimDtThreadBudget, ← hzero]
    rfl
  · -- what is unspent makes up the one packet that the bucket keeps
    have htokens : control.tokens < 2 := h.resolve_left hleft.ne'
    have hone : (1 : ℚ) ≤ totalDtThreadBudget control := by exact_mod_cast hleft
    have hkept : (reclaimDtThreadBudget control).tokens = 1 := by
      rw [reclaimDtThreadBudget, returnPackets, if_pos hleft]
      exact min_eq_right (by linarith [hs.tokens_nonneg] : (1 : ℚ) ≤ _)
    rw [hkept, Int.floor_one, ← Int.lt_add_one_iff, Int.floor_lt]
    exact_mod_cast htokens

/-- A thread with a hundred Interests gets five packets, and takes them or not. -/
def fivePackets : List DtControlEvent := [.activate 0, .demand 0 100, .allocate 10000000 false]

theorem dt_distribute_grants_spent :
    0 < (dtControlRun 1 (fivePackets ++ [.take 0 64])).rate
      ∧ (refilled 1 (fivePackets ++ [.take 0 64]) 110000000).tokens = 50
      ∧ min ⌊(refilled 1 (fivePackets ++ [.take 0 64]) 110000000).tokens⌋ (dtThreadQuotaCapPackets
          * (activeThreads (refilled 1 (fivePackets ++ [.take 0 64]) 110000000)).card)
        ≤ handedOut
          (distributeDtFaceBudget (refilled 1 (fivePackets ++ [.take 0 64]) 110000000)).out :=
  ⟨by decide +kernel, by decide +kernel, dt_distribute_grants 1 _ 110000000 (by decide +kernel)
    (by decide +kernel) (.inl (by decide +kernel))⟩

/-- If the thread leaves its five packets, fifty fresh tokens are cut to one. -/
theorem dt_distribute_destroys_tokens :
    (refilled 1 fivePackets 110000000).tokens = 50
      ∧ totalDtThreadBudget (refilled 1 fivePackets 110000000) = 5
      ∧ 0 < totalDtThreadDemand (refilled 1 fivePackets 110000000)
      ∧ (activeThreads (refilled 1 fivePackets 110000000)).card = 1
      ∧ handedOut (distributeDtFaceBudget (refilled 1 fivePackets 110000000)).out = 1
      ∧ handedOut (distributeDtFaceBudget
        { refilled 1 fivePackets 110000000 with budgetByThread := fun _ => 0 }).out = 50 := by
  decide +kernel

end Mars
