import Mars.Dt.Sound
import Mars.Lib.Apportion

/-!
What an epoch of the scheduler may hand out.

Each thread is granted the whole packets of its share and carries the fraction to the next
epoch.  The carries of the threads can add up to a packet or more, and then the whole packets
of the shares add up to more than there was to share.

* `assign_le`, `conserves_allocate`: an epoch that starts with the carries below one packet
  hands out no more than the bucket held and minted;
* `totalCarry_assign_lt`, `totalCarry_dtControlRun_lt`: with at most two threads the carries
  stay below one packet;
* `dt_bucket_conserves`: so the bucket conserves there.
-/

namespace Mars

open Finset Function Outcome

variable {control : DtFaceControlState} {A : ℤ} {W : ℚ} {n : ℕ}

/-- What the threads carry, all together. -/
def totalCarry (control : DtFaceControlState) : ℚ :=
  ∑ t ∈ range control.slots, control.carryByThread t

lemma Sound.totalCarry_ensureSlots (hs : Sound control) :
    totalCarry (ensureDtControlThreadSlots n control) = totalCarry control := by
  refine (sum_subset (range_mono (le_max_left _ _)) fun t _ ht => ?_).symm
  exact hs.carry_past (not_lt.mp (mt mem_range.mpr ht))

/-! ### The assignment -/

section Assign

variable (hs : Sound control)
include hs

/-- A thread gets at most the whole packets of its share; one without weight has no share. -/
lemma grantOf_le_floor (hA : 0 ≤ A) (hW : 0 ≤ W) {t : ℕ} :
    grantOf control A W t ≤ ⌊shareOf control A W t⌋ := by
  have hpart : 0 ≤ A * (dtThreadWeight control t / W) :=
    mul_nonneg (Int.cast_nonneg hA) (div_nonneg dtThreadWeight_nonneg hW)
  have hfloor : 0 ≤ ⌊shareOf control A W t⌋ :=
    Int.floor_nonneg.mpr (add_nonneg hpart (hs.carry_nonneg t))
  unfold grantOf
  split_ifs
  · exact hfloor
  · exact max_le hfloor (min_le_left _ _)

/-- With the carries below one packet the first loop does not overspend. -/
lemma sharesGranted_le (hA : 0 ≤ A) (hW : 0 < totalWeight control)
    (hcarry : totalCarry control < 1) : sharesGranted control A ≤ A :=
  calc sharesGranted control A
      ≤ ∑ t ∈ range control.slots, ⌊shareOf control A (totalWeight control) t⌋ :=
        sum_le_sum fun _ _ => grantOf_le_floor hs hA hW.le
    _ ≤ A := Apportion.sum_floor_share_le hW.ne' hcarry

/-- **An assignment does not overspend** if it starts with the carries below one packet. -/
theorem assign_le (hA : 0 ≤ A) (hcarry : totalCarry control < 1) (start : ℕ) :
    (assignDtWeightedThreadBudget control A control.slots start).2 ≤ A := by
  rcases assign_cases control A start with heq | ⟨-, hW, spread, -, hspread, heq⟩ <;> rw [heq]
  · exact hA
  · have hle := sharesGranted_le hs hA hW hcarry
    have hcount := hspread.count_le
    dsimp only
    omega

/-! ### Two threads -/

/-- If the first loop hands out everything, the carries do not grow. -/
lemma totalCarry_afterShares_le (hA : 0 ≤ A) (hW : 0 < totalWeight control)
    (hall : sharesGranted control A = A) :
    totalCarry (afterShares control A) ≤ totalCarry control := by
  have hfloors : A ≤ ∑ t ∈ range control.slots, ⌊shareOf control A (totalWeight control) t⌋ :=
    hall.ge.trans (sum_le_sum fun _ _ => grantOf_le_floor hs hA hW.le)
  have hfract : ∑ t ∈ range control.slots, Int.fract (shareOf control A (totalWeight control) t)
      = ((A - ∑ t ∈ range control.slots, ⌊shareOf control A (totalWeight control) t⌋ : ℤ) : ℚ)
        + totalCarry control := Apportion.sum_fract_share hW.ne'
  have hrest : ((A - ∑ t ∈ range control.slots,
      ⌊shareOf control A (totalWeight control) t⌋ : ℤ) : ℚ) ≤ 0 := by
    exact_mod_cast sub_nonpos.mpr hfloors
  calc totalCarry (afterShares control A)
      = ∑ t ∈ range control.slots, Int.fract (shareOf control A (totalWeight control) t) := by
        refine sum_congr rfl fun t ht => ?_
        have hlt := mem_range.mp ht
        by_cases hw : dtThreadWeight control t ≤ 0
        · have hzero := hs.carry_idle t (demand_nonpos_of_weight hw)
          have hweight := dtThreadWeight_eq_zero (demand_nonpos_of_weight hw)
          simp [afterShares, carryOf, hlt, shareOf, hzero, hweight]
        · simp [afterShares, carryOf, hlt, hw]
    _ ≤ totalCarry control := by linarith

/-- A packet that the first loop leaves over finds a thread to go to: no budget is near the
quota of a thread. -/
lemma exists_bestTid (hbudget : ∀ t, control.budgetByThread t = 0) (hW : 0 < totalWeight control)
    (hA : A ≤ 64) (hleft : sharesGranted control A < A) {start : ℕ} :
    ∃ t, bestTid (afterShares control A) (rrOrder control.slots start) = some t := by
  rw [← Option.isSome_iff_exists, Option.isSome_iff_ne_none]
  intro hnone
  obtain ⟨-, hall⟩ := foldl_betterCarry_eq_none hnone
  obtain ⟨t, ht, hweight⟩ : ∃ t ∈ range control.slots, 0 < dtThreadWeight control t := by
    by_contra hcon
    push Not at hcon
    exact absurd hW (not_lt.mpr (sum_nonpos hcon))
  have hgrant : grantOf control A (totalWeight control) t ≤ sharesGranted control A :=
    single_le_sum (fun _ _ => grantOf_nonneg) ht
  have hroom : (afterShares control A).budgetByThread t < dtThreadQuotaCapPackets := by
    have hcap : dtThreadQuotaCapPackets = 512 := rfl
    simp only [afterShares, if_pos (mem_range.mp ht), hbudget t]
    omega
  have hcarry := hall t (mem_rrOrder.mpr (mem_range.mp ht)) hweight hroom
  have hnonneg := (sound_afterShares hs (A := A)).carry_nonneg t
  dsimp only at hcarry
  linarith

omit hs in
/-- Of two fractions one of which is zero the sum is below one. -/
lemma sum_lt_one_of_zero {f : ℕ → ℚ} {n t : ℕ} (hn : n ≤ 2) (ht : t < n) (hzero : f t = 0)
    (hlt : ∀ u, f u < 1) : ∑ u ∈ range n, f u < 1 := by
  rw [← add_sum_erase _ _ (mem_range.mpr ht), hzero, zero_add]
  have hcard : ((range n).erase t).card ≤ 1 := by
    rw [card_erase_of_mem (mem_range.mpr ht), card_range]
    omega
  rcases Finset.card_le_one_iff_subset_singleton.mp hcard with ⟨u, hu⟩
  rcases Finset.subset_singleton_iff.mp hu with h | h
  · rw [h, sum_empty]
    exact one_pos
  · rw [h, sum_singleton]
    exact hlt u

/-- **With two threads the carries stay below one packet**: either nothing is left over and
the carries do not grow, or a thread is served and only the other one carries. -/
theorem totalCarry_assign_lt (hslots : control.slots ≤ 2)
    (hbudget : ∀ t, control.budgetByThread t = 0) (hA : A ≤ 64)
    (hcarry : totalCarry control < 1) (start : ℕ) :
    totalCarry (assignDtWeightedThreadBudget control A control.slots start).1 < 1 := by
  have hsound := sound_assign hs (A := A) start
  rcases assign_cases control A start with heq | ⟨hpos, hW, spread, hdef, hspread, heq⟩ <;>
    rw [heq] at hsound ⊢
  · exact hcarry
  have hshares : Sound (afterShares control A) := sound_afterShares hs
  have hslots' : spread.1.slots = control.slots := by
    rw [hspread.frame]
    rfl
  dsimp only at hsound ⊢
  rw [totalCarry, hslots']
  rcases (sharesGranted_le hs hpos.le hW hcarry).eq_or_lt with hall | hleft
  · calc ∑ t ∈ range control.slots, _
        ≤ totalCarry (afterShares control A) := by
          refine sum_le_sum fun t _ => ?_
          rcases hspread.carry t with hc | hc
          · exact hc.le
          · exact hc.le.trans (hshares.carry_nonneg t)
      _ ≤ totalCarry control := totalCarry_afterShares_le hs hpos.le hW hall
      _ < 1 := hcarry
  · obtain ⟨u, hu⟩ := exists_bestTid hs hbudget hW hA hleft
    obtain ⟨k, hk⟩ : ∃ k, (A - sharesGranted control A).toNat = k + 1 :=
      ⟨(A - sharesGranted control A).toNat - 1, by omega⟩
    have hserved : 0 < spread.2 := by
      have hrest := (spread_spreadLeftover (rrOrder control.slots start) k
        (givePacket (afterShares control A) u)).count_nonneg
      rw [hdef, hk, spreadLeftover, hu]
      dsimp only
      omega
    obtain ⟨t, ht, hzero⟩ := hspread.served hserved
    exact sum_lt_one_of_zero hslots (mem_rrOrder.mp ht) hzero hsound.carry_lt_one

end Assign

/-! ### One epoch -/

/-- The tokens an epoch mints. -/
def mintedTokens (out : List DtLedger) : ℚ :=
  (out.map fun | .minted tokens => tokens | _ => 0).sum

/-- `1` if an epoch uses a packet that liveness forces. -/
def forcedPackets (out : List DtLedger) : ℚ := if .forced ∈ out then 1 else 0

/-- What a face holds: its tokens and the budgets of its threads. -/
def holdings (control : DtFaceControlState) : ℚ := totalDtThreadBudget control + control.tokens

/-- An assignment stays within what is available. -/
def DtLedger.Within : DtLedger → Prop
  | .assigned availablePackets assignedPackets => assignedPackets ≤ availablePackets
  | _ => True

instance : DecidablePred DtLedger.Within
  | .minted _ => isTrue trivial
  | .forced => isTrue trivial
  | .assigned a k => inferInstanceAs (Decidable (k ≤ a))

/-- An epoch **conserves** if it leaves no more than the face held, minted and was forced to
send, and assigns no more than was available. -/
def Conserves (control : DtFaceControlState) (epoch : Outcome DtFaceControlState DtLedger) : Prop :=
  holdings epoch.state ≤ holdings control + mintedTokens epoch.out + forcedPackets epoch.out
    ∧ ∀ entry ∈ epoch.out, entry.Within

instance (control : DtFaceControlState) (epoch : Outcome DtFaceControlState DtLedger) :
    Decidable (Conserves control epoch) :=
  inferInstanceAs (Decidable (_ ∧ _))

lemma mintedTokens_cons {tokens : ℚ} {out : List DtLedger} :
    mintedTokens (.minted tokens :: out) = tokens + mintedTokens out := by
  simp [mintedTokens]

lemma forcedPackets_cons {tokens : ℚ} {out : List DtLedger} :
    forcedPackets (.minted tokens :: out) = forcedPackets out := by
  simp [forcedPackets]

lemma holdings_clampRetained_le : holdings (clampDtRetainedBudget control) ≤ holdings control :=
  add_le_add_right (min_le_left _ _) _

lemma holdings_returnPackets_le {packets : ℤ} (h : 0 ≤ packets) :
    holdings (returnPackets control packets) ≤ holdings control + packets := by
  unfold returnPackets
  split_ifs with hpos
  · refine holdings_clampRetained_le.trans (le_of_eq ?_)
    simp only [holdings, totalDtThreadBudget]
    ring
  · have hcast : (0 : ℚ) ≤ packets := by exact_mod_cast h
    linarith

lemma holdings_reclaim_le (hs : Sound control) :
    holdings (reclaimDtThreadBudget control) ≤ holdings control := by
  refine (holdings_returnPackets_le hs.totalBudget_nonneg).trans (le_of_eq ?_)
  simp [holdings, totalDtThreadBudget, add_comm]

lemma returnPackets_tokens_le {packets : ℤ} (h : control.tokens ≤ 64) :
    (returnPackets control packets).tokens ≤ 64 := by
  unfold returnPackets
  split_ifs
  · exact (min_le_right _ _).trans (by decide)
  · exact h

/-- What is drawn leaves the bucket, except for a forced packet. -/
structure Drawn (control : DtFaceControlState)
    (drawn : DtFaceControlState × ℤ × List DtLedger) : Prop where
  frame : drawn.1 = { control with
    tokens := drawn.1.tokens, livenessForcedPackets := drawn.1.livenessForcedPackets }
  tokens_nonneg : 0 ≤ drawn.1.tokens
  grant_nonneg : 0 ≤ drawn.2.1
  grant_le : control.tokens ≤ 64 → drawn.2.1 ≤ 64
  balance : drawn.1.tokens + drawn.2.1 = control.tokens + forcedPackets drawn.2.2
  minted : mintedTokens drawn.2.2 = 0
  within : ∀ entry ∈ drawn.2.2, entry.Within

lemma drawn_drawGrant (h : 0 ≤ control.tokens) : Drawn control (drawGrant control) := by
  have hgrant : truncate control.tokens = ⌊control.tokens⌋ := if_pos h
  have hnonneg : 0 ≤ ⌊control.tokens⌋ := Int.floor_nonneg.mpr h
  have hle : (⌊control.tokens⌋ : ℚ) ≤ control.tokens := Int.floor_le _
  simp only [drawGrant, hgrant]
  by_cases hpos : 0 < ⌊control.tokens⌋
  · have hfree : ¬(⌊control.tokens⌋ < 1 ∧ 0 < control.livenessForcedPackets) := by omega
    rw [if_pos hpos, if_neg hfree]
    refine ⟨rfl, sub_nonneg.mpr hle, hnonneg, fun h64 => ?_, ?_, rfl, by simp⟩
    · exact_mod_cast hle.trans h64
    · simp [forcedPackets]
  · rw [if_neg hpos]
    split_ifs with hforced
    · exact ⟨rfl, h, by simp, by simp, by simp [forcedPackets], by simp [mintedTokens],
        by simp [DtLedger.Within]⟩
    · have hzero : ⌊control.tokens⌋ = 0 := by omega
      rw [hzero]
      exact ⟨rfl, h, le_rfl, by simp, by simp [forcedPackets], rfl, by simp⟩

section Epoch

variable (hs : Sound control)
include hs

lemma totalCarry_drawGrant : totalCarry (drawGrant control).1 = totalCarry control := by
  rw [(drawn_drawGrant hs.tokens_nonneg).frame]
  rfl

/-- What is spent comes out of the grant. -/
lemma conserves_spendGrant (hA : 0 ≤ A) (hcarry : totalCarry control < 1) :
    holdings (spendGrant control A).state ≤ holdings control + A
      ∧ (mintedTokens (spendGrant control A).out = 0 ∧ .forced ∉ (spendGrant control A).out)
      ∧ ∀ entry ∈ (spendGrant control A).out, entry.Within := by
  unfold spendGrant
  split_ifs with hnone hidle
  · have hcast : (0 : ℚ) ≤ A := by exact_mod_cast hA
    exact ⟨by dsimp only [ret_state]; linarith, ⟨rfl, by simp⟩, by simp⟩
  · exact ⟨holdings_returnPackets_le hA, ⟨rfl, by simp⟩, by simp⟩
  · have hle := assign_le hs hA hcarry control.budgetRR
    have htotal := totalBudget_assign control A control.budgetRR
    refine ⟨?_, ⟨by simp [mintedTokens], by simp⟩, ?_⟩
    · refine (holdings_returnPackets_le (sub_nonneg.mpr hle)).trans (le_of_eq ?_)
      rw [holdings, htotal, assign_frame]
      simp only [holdings]
      push_cast
      ring
    · intro entry hmem
      rw [Outcome.ret_out, List.mem_singleton] at hmem
      rw [hmem]
      exact hle

lemma conserves_distribute (hcarry : totalCarry control < 1) :
    Conserves control (distributeDtFaceBudget control) := by
  have hframe := returnPackets_frame { control with budgetByThread := fun _ => 0 }
    (totalDtThreadBudget control)
  have hcarry' : totalCarry (drawGrant (reclaimDtThreadBudget control)).1 < 1 := by
    rw [totalCarry_drawGrant hs.reclaim, reclaimDtThreadBudget, hframe]
    exact hcarry
  have hdrawn := drawn_drawGrant hs.reclaim.tokens_nonneg
  obtain ⟨hspend, ⟨hminted, hforced⟩, hassigned⟩ :=
    conserves_spendGrant (sound_drawGrant hs.reclaim) hdrawn.grant_nonneg hcarry'
  have hreclaim := holdings_reclaim_le hs
  have hbudget : totalDtThreadBudget (drawGrant (reclaimDtThreadBudget control)).1
      = totalDtThreadBudget (reclaimDtThreadBudget control) := by
    rw [hdrawn.frame]
    rfl
  have hbalance := hdrawn.balance
  simp only [distributeDtFaceBudget, go_bind, Conserves]
  refine ⟨?_, fun entry hmem => ?_⟩
  · have hm : mintedTokens ((drawGrant (reclaimDtThreadBudget control)).2.2
        ++ (spendGrant (drawGrant (reclaimDtThreadBudget control)).1
          (drawGrant (reclaimDtThreadBudget control)).2.1).out) = 0 := by
      have hd := hdrawn.minted
      simp only [mintedTokens, List.map_append, List.sum_append] at hd hminted ⊢
      rw [hd, hminted, add_zero]
    have hf : forcedPackets ((drawGrant (reclaimDtThreadBudget control)).2.2
        ++ (spendGrant (drawGrant (reclaimDtThreadBudget control)).1
          (drawGrant (reclaimDtThreadBudget control)).2.1).out)
        = forcedPackets (drawGrant (reclaimDtThreadBudget control)).2.2 := by
      simp [forcedPackets, hforced]
    rw [hm, hf]
    simp only [holdings, hbudget] at hspend hreclaim ⊢
    linarith
  · rcases List.mem_append.mp hmem with h | h
    · exact hdrawn.within entry h
    · exact hassigned entry h

lemma holdings_nonneg : 0 ≤ holdings control :=
  add_nonneg (by exact_mod_cast hs.totalBudget_nonneg) hs.tokens_nonneg

lemma holdings_ensureSlots (n : ℕ) :
    holdings (ensureDtControlThreadSlots n control) = holdings control := by
  rw [holdings, hs.totalBudget_ensureSlots]
  rfl

/-- A refill mints what it adds, up to the burst cap. -/
lemma conserves_refill_bind (hrate : 0 < control.rate) (hcarry : totalCarry control < 1)
    (now : Time) :
    Conserves control ((refillDtFaceTokens control now).bind distributeDtFaceBudget) := by
  have hrefill : holdings (refillDtFaceTokens control now).state
      ≤ holdings control + elapsedSeconds control now * control.rate := by
    rw [holdings, holdings, add_assoc]
    exact add_le_add_right (min_le_left _ _) _
  obtain ⟨hbucket, hwithin⟩ := conserves_distribute (sound_refill hs hrate now) hcarry
  rw [refillDtFaceTokens, go_bind, Conserves, List.singleton_append, mintedTokens_cons,
    forcedPackets_cons]
  rw [refillDtFaceTokens, go_state] at hbucket hwithin hrefill
  refine ⟨by linarith, fun entry hmem => ?_⟩
  rcases List.mem_cons.mp hmem with rfl | h
  · exact trivial
  · exact hwithin entry h

/-- **An epoch conserves** if it starts with the carries below one packet. -/
theorem conserves_allocate (hcarry : totalCarry control < 1) (n : ℕ) (now : Time)
    (blocked : Bool) : Conserves control (allocateDtFaceBudgets n control now blocked) := by
  have hs' := hs.ensureSlots n
  have hholds := holdings_ensureSlots hs n
  have hcarry' : totalCarry (ensureDtControlThreadSlots n control) < 1 :=
    (hs.totalCarry_ensureSlots).trans_lt hcarry
  have hquiet : ∀ c, holdings c ≤ holdings control → Conserves control (.ret c []) := by
    intro c hc
    refine ⟨?_, by simp⟩
    simpa [mintedTokens, forcedPackets] using hc
  simp only [allocateDtFaceBudgets]
  split_ifs with hinactive hblocked hidle
  · exact hquiet control le_rfl
  · refine hquiet _ ?_
    have hzero : holdings
        (clearDtFaceBlockedState (ensureDtControlThreadSlots n control) now) = 0 := by
      simp [holdings, totalDtThreadBudget, clearDtFaceBlockedState]
    exact hzero.trans_le (holdings_nonneg hs)
  · refine hquiet _ ?_
    calc holdings _ ≤ holdings (reclaimDtThreadBudget (ensureDtControlThreadSlots n control)) :=
          holdings_clampRetained_le
      _ ≤ holdings (ensureDtControlThreadSlots n control) := holdings_reclaim_le hs'
      _ = holdings control := hholds
  · push Not at hinactive
    have h := conserves_refill_bind hs' hinactive.2 hcarry' now
    rw [Conserves, hholds] at h
    exact h

end Epoch

/-! ### Runs -/

lemma slots_spendGrant : (spendGrant control A).state.slots = control.slots := by
  unfold spendGrant
  split_ifs
  · rfl
  · rw [returnPackets_frame]
    rfl
  · dsimp only [ret_state]
    rw [returnPackets_frame, assign_frame]

lemma slots_distribute (hs : Sound control) :
    (distributeDtFaceBudget control).state.slots = control.slots := by
  have hdrawn := drawn_drawGrant hs.reclaim.tokens_nonneg
  rw [distributeDtFaceBudget, go_bind]
  dsimp only
  rw [slots_spendGrant, hdrawn.frame, reclaimDtThreadBudget, returnPackets_frame]

/-- With two threads an epoch leaves the carries below one packet. -/
lemma totalCarry_distribute_lt (hs : Sound control) (hslots : control.slots ≤ 2)
    (htokens : control.tokens ≤ 64) (hcarry : totalCarry control < 1) :
    totalCarry (distributeDtFaceBudget control).state < 1 := by
  have hreclaim := returnPackets_frame { control with budgetByThread := fun _ => 0 }
    (totalDtThreadBudget control)
  have hdrawn := drawn_drawGrant hs.reclaim.tokens_nonneg
  have hsound := sound_drawGrant hs.reclaim
  have htokens' : (reclaimDtThreadBudget control).tokens ≤ 64 := returnPackets_tokens_le htokens
  have hgrant := hdrawn.grant_le htokens'
  set drawn := drawGrant (reclaimDtThreadBudget control) with hdef
  have hframe := hdrawn.frame
  rw [reclaimDtThreadBudget, hreclaim] at hframe
  have hcarry' : totalCarry drawn.1 < 1 := by
    rw [hframe]
    exact hcarry
  have hslots' : drawn.1.slots ≤ 2 := by
    rw [hframe]
    exact hslots
  have hbudget : ∀ t, drawn.1.budgetByThread t = 0 := by
    intro t
    rw [hframe]
  rw [distributeDtFaceBudget, go_bind]
  simp only [spendGrant, ← hdef]
  split_ifs
  · exact hcarry'
  · rw [ret_state, returnPackets_frame]
    exact hcarry'
  · have h := totalCarry_assign_lt hsound hslots' hbudget hgrant hcarry' drawn.1.budgetRR
    rw [ret_state, returnPackets_frame]
    exact h

/-- The state of a face with at most two threads: the carries are below one packet. -/
structure LowCarry (control : DtFaceControlState) : Prop extends Sound control where
  slots_le : control.slots ≤ 2
  carry_lt : totalCarry control < 1

namespace LowCarry

variable (h : LowCarry control)
include h

lemma ensureSlots (hn : n ≤ 2) : LowCarry (ensureDtControlThreadSlots n control) where
  toSound := h.toSound.ensureSlots n
  slots_le := by
    have := h.slots_le
    simp only [ensureDtControlThreadSlots]
    split_ifs <;> omega
  carry_lt := (h.toSound.totalCarry_ensureSlots).trans_lt h.carry_lt

lemma clearBlocked {now : Time} : LowCarry (clearDtFaceBlockedState control now) where
  toSound := h.toSound.clearBlocked
  slots_le := h.slots_le
  carry_lt := by simp [totalCarry, clearDtFaceBlockedState]

lemma noteDemand (hn : n ≤ 2) (threadID : ℕ) (delta : ℤ) :
    LowCarry (noteDtThreadDemand n control threadID delta) := by
  have h' := h.ensureSlots hn
  have hsound := h.toSound.noteDemand n threadID delta
  simp only [noteDtThreadDemand] at hsound ⊢
  split_ifs at hsound ⊢ with ht
  · refine ⟨hsound, h'.slots_le, lt_of_le_of_lt (sum_le_sum fun t _ => ?_) h'.carry_lt⟩
    -- a carry is kept or dropped
    simp only [setDtThreadDemand]
    split_ifs
    · rcases eq_or_ne t threadID with rfl | hne
      · simpa using h'.carry_nonneg t
      · simp [hne]
    · exact le_rfl
  · exact h'

lemma allocate (hn : n ≤ 2) {now : Time} {blocked : Bool} :
    LowCarry (allocateDtFaceBudgets n control now blocked).state := by
  have h' := h.ensureSlots hn
  have hsound := sound_allocate h.toSound n now blocked
  simp only [allocateDtFaceBudgets] at hsound ⊢
  split_ifs at hsound ⊢ with hinactive hblocked hidle
  · exact h
  · exact h'.clearBlocked
  · have hframe := returnPackets_frame
      { ensureDtControlThreadSlots n control with budgetByThread := fun _ => 0 }
      (totalDtThreadBudget (ensureDtControlThreadSlots n control))
    refine ⟨hsound, ?_, ?_⟩
    · simp only [ret_state, clampDtRetainedBudget, reclaimDtThreadBudget]
      rw [hframe]
      exact h'.slots_le
    · simp only [ret_state, clampDtRetainedBudget, reclaimDtThreadBudget, totalCarry]
      rw [hframe]
      exact h'.carry_lt
  · push Not at hinactive
    have hrefill := sound_refill h'.toSound hinactive.2 now
    refine ⟨hsound, ?_, ?_⟩
    · exact (slots_distribute hrefill).trans_le h'.slots_le
    · exact totalCarry_distribute_lt hrefill h'.slots_le (min_le_right _ _) h'.carry_lt

lemma step (hn : n ≤ 2) {e : DtControlEvent} : LowCarry (dtControlStep n control e) := by
  cases e with
  | activate now =>
    simp only [dtControlStep, ensureDtControlActivated]
    split_ifs
    exacts [h, { h with }]
  | rateRound newRate starved => exact { h with }
  | demand threadID delta => exact h.noteDemand hn threadID delta
  | take threadID maxPackets =>
    have hsound := h.toSound.takeBudget n threadID maxPackets
    have h' := h.ensureSlots hn
    simp only [dtControlStep, takeDtThreadBudget] at hsound ⊢
    split_ifs at hsound ⊢
    exacts [h, h', h', ⟨hsound, h'.slots_le, h'.carry_lt⟩]
  | allocate now blocked => exact h.allocate hn
  | clear now => exact (h.ensureSlots hn).clearBlocked

end LowCarry

/-- With at most two threads the carries stay below one packet in every run. -/
theorem totalCarry_dtControlRun_lt {n : ℕ} (hn : n ≤ 2) {es : List DtControlEvent} :
    totalCarry (dtControlRun n es) < 1 := by
  have hnew : LowCarry .new :=
    ⟨sound_new, Nat.zero_le _, by simp [totalCarry, DtFaceControlState.new]⟩
  have h : LowCarry (dtControlRun n es) :=
    Steps.run_invariant (I := LowCarry) (fun _ e h => h.step hn) hnew es
  exact h.carry_lt

/-- **The token bucket conserves** in every run with at most two forwarding threads, and with
more of them in every epoch that starts with the carries below one packet. -/
theorem dt_bucket_conserves (n : ℕ) (es : List DtControlEvent) (now : Time) (blocked : Bool)
    (h : n ≤ 2 ∨ totalCarry (dtControlRun n es) < 1) :
    Conserves (dtControlRun n es)
      (allocateDtFaceBudgets n (dtControlRun n es) now blocked) := by
  have hcarry : totalCarry (dtControlRun n es) < 1 := by
    rcases h with hn | hcarry
    · exact totalCarry_dtControlRun_lt hn
    · exact hcarry
  exact conserves_allocate sound_dtControlRun hcarry n now blocked

/-- Three threads with a packet each; the first epoch serves thread `0`, which sends it. -/
def threeThreads : List DtControlEvent :=
  [.activate 0, .demand 0 1, .demand 1 1, .demand 2 1, .allocate 2000000 false,
    .take 0 64, .demand 0 (-1)]

/-- Thread `0` then queues two packets more; the next epoch serves thread `1`, which sends its
packet. -/
def threeThreadsAgain : List DtControlEvent :=
  threeThreads ++ [.demand 0 1, .demand 0 1, .allocate 4000000 false, .take 1 64, .demand 1 (-1)]

theorem dt_bucket_conserves_three_threads :
    totalCarry (dtControlRun 3 threeThreads) = 2 / 3
      ∧ Conserves (dtControlRun 3 threeThreads)
        (allocateDtFaceBudgets 3 (dtControlRun 3 threeThreads) 4000000 false) :=
  ⟨by decide +kernel, dt_bucket_conserves 3 threeThreads 4000000 false (.inr (by decide +kernel))⟩

/-- After two epochs threads `0` and `2` carry more than a packet between them: the third epoch
mints one packet and hands out two. -/
theorem dt_bucket_overspends :
    (allocateDtFaceBudgets 3 (dtControlRun 3 threeThreadsAgain) 6000000 false).out
        = [.minted 1, .assigned 1 2]
      ∧ holdings (dtControlRun 3 threeThreadsAgain) = 0
      ∧ holdings (allocateDtFaceBudgets 3 (dtControlRun 3 threeThreadsAgain) 6000000 false).state
        = 2
      ∧ ¬Conserves (dtControlRun 3 threeThreadsAgain)
        (allocateDtFaceBudgets 3 (dtControlRun 3 threeThreadsAgain) 6000000 false) := by
  decide +kernel

end Mars
