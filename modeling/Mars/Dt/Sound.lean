import Mars.Dt.Assign
import Mathlib.Algebra.Order.BigOperators.Group.Finset

/-!
The invariant of a face's control state.

* `Sound`: nothing is negative, a carry is a fraction, and a thread without demand has neither
  budget nor carry;
* `sound_step`, `sound_dtControlRun`: it holds whatever happens to the face.
-/

namespace Mars

open Finset Function

variable {control : DtFaceControlState} {A : ℤ} {tid : ℕ}

/-- The invariant of the control state: nothing is negative, a carry is a fraction, and a
thread without demand has neither budget nor carry. -/
structure Sound (control : DtFaceControlState) : Prop where
  tokens_nonneg : 0 ≤ control.tokens
  budget_nonneg : ∀ t, 0 ≤ control.budgetByThread t
  carry_nonneg : ∀ t, 0 ≤ control.carryByThread t
  carry_lt_one : ∀ t, control.carryByThread t < 1
  budget_idle : ∀ t, control.demandByThread t ≤ 0 → control.budgetByThread t = 0
  carry_idle : ∀ t, control.demandByThread t ≤ 0 → control.carryByThread t = 0
  demand_past : ∀ t, control.slots ≤ t → control.demandByThread t = 0

lemma dtThreadWeight_pos_iff : 0 < dtThreadWeight control tid ↔ 0 < control.demandByThread tid := by
  unfold dtThreadWeight
  split_ifs with h
  · simp [h]
  · have hpos : 0 < control.demandByThread tid := not_le.mp h
    have hcast : (0 : ℚ) < control.demandByThread tid := by exact_mod_cast hpos
    exact ⟨fun _ => hpos, fun _ => add_pos rfl hcast⟩

lemma dtThreadWeight_nonneg : 0 ≤ dtThreadWeight control tid := by
  by_cases h : 0 < dtThreadWeight control tid
  · exact h.le
  · rw [dtThreadWeight_pos_iff, not_lt] at h
    rw [dtThreadWeight, if_pos h]

lemma dtThreadWeight_eq_zero (h : control.demandByThread tid ≤ 0) :
    dtThreadWeight control tid = 0 := if_pos h

lemma demand_nonpos_of_weight (h : dtThreadWeight control tid ≤ 0) :
    control.demandByThread tid ≤ 0 := by
  rw [← not_lt, dtThreadWeight_pos_iff, not_lt] at h
  exact h

lemma sound_new : Sound .new where
  tokens_nonneg := le_rfl
  budget_nonneg _ := le_rfl
  carry_nonneg _ := le_rfl
  carry_lt_one _ := one_pos
  budget_idle _ _ := rfl
  carry_idle _ _ := rfl
  demand_past _ _ := rfl

namespace Sound

variable (hs : Sound control)
include hs

lemma budget_past {t : ℕ} (ht : control.slots ≤ t) : control.budgetByThread t = 0 :=
  hs.budget_idle t (hs.demand_past t ht).le

lemma carry_past {t : ℕ} (ht : control.slots ≤ t) : control.carryByThread t = 0 :=
  hs.carry_idle t (hs.demand_past t ht).le

lemma ensureSlots (n : ℕ) : Sound (ensureDtControlThreadSlots n control) :=
  { hs with demand_past := fun t ht => hs.demand_past t ((le_max_left _ _).trans ht) }

lemma totalBudget_nonneg : 0 ≤ totalDtThreadBudget control :=
  sum_nonneg fun t _ => hs.budget_nonneg t

/-- Growing the slices adds zeros. -/
lemma totalBudget_ensureSlots {n : ℕ} :
    totalDtThreadBudget (ensureDtControlThreadSlots n control) = totalDtThreadBudget control := by
  refine (sum_subset (range_mono (le_max_left _ _)) fun t _ ht => ?_).symm
  exact hs.budget_past (not_lt.mp (mt mem_range.mpr ht))

lemma setDemand {demand : ℤ} (hd : 0 ≤ demand) (ht : tid < control.slots) :
    Sound (setDtThreadDemand control tid demand) := by
  have hthread : ∀ t, let control' := setDtThreadDemand control tid demand
      0 ≤ control'.budgetByThread t ∧ 0 ≤ control'.carryByThread t ∧ control'.carryByThread t < 1
        ∧ (control'.demandByThread t ≤ 0 →
          control'.budgetByThread t = 0 ∧ control'.carryByThread t = 0) := by
    intro t
    have hidle := fun hle => And.intro (hs.budget_idle t hle) (hs.carry_idle t hle)
    rcases eq_or_ne t tid with rfl | hne <;> by_cases h0 : demand = 0 <;>
      simp [setDtThreadDemand, hs.budget_nonneg, hs.carry_nonneg, hs.carry_lt_one, *]
    exacts [fun hle => absurd (le_antisymm hle hd) h0, hidle, hidle]
  have hpast : ∀ t, control.slots ≤ t → t ≠ tid := by
    rintro t hle rfl
    exact hle.not_gt ht
  exact ⟨hs.tokens_nonneg, fun t => (hthread t).1, fun t => (hthread t).2.1,
    fun t => (hthread t).2.2.1, fun t hle => ((hthread t).2.2.2 hle).1,
    fun t hle => ((hthread t).2.2.2 hle).2,
    fun t hle => (Function.update_of_ne (hpast t hle) ..).trans (hs.demand_past t hle)⟩

lemma noteDemand (n : ℕ) (threadID : ℕ) (delta : ℤ) :
    Sound (noteDtThreadDemand n control threadID delta) := by
  simp only [noteDtThreadDemand]
  split_ifs with ht
  · exact (hs.ensureSlots n).setDemand (le_max_left _ _) ht
  · exact hs.ensureSlots n

lemma takeBudget (n : ℕ) (threadID : ℕ) (maxPackets : ℤ) :
    Sound (takeDtThreadBudget n control threadID maxPackets).1 := by
  have hs' := hs.ensureSlots n
  simp only [takeDtThreadBudget]
  split_ifs with hmax hslot hnone
  · exact hs
  · exact hs'
  · exact hs'
  · refine { hs' with budget_nonneg := fun t => ?_, budget_idle := fun t hle => ?_ }
    · rcases eq_or_ne t threadID with rfl | hne
      · simp
      · simpa [hne] using hs'.budget_nonneg t
    · have hzero := hs'.budget_idle t hle
      rcases eq_or_ne t threadID with rfl | hne
      · exact absurd hzero.le hnone
      · simpa [hne] using hzero

lemma clearBlocked {now : Time} : Sound (clearDtFaceBlockedState control now) :=
  { hs with
    tokens_nonneg := le_rfl
    budget_nonneg := fun _ => le_rfl
    carry_nonneg := fun _ => le_rfl
    carry_lt_one := fun _ => one_pos
    budget_idle := fun _ _ => rfl
    carry_idle := fun _ _ => rfl }

lemma withTokens {tokens : ℚ} (h : 0 ≤ tokens) : Sound { control with tokens := tokens } :=
  { hs with tokens_nonneg := h }

lemma clampRetained : Sound (clampDtRetainedBudget control) :=
  hs.withTokens (le_min hs.tokens_nonneg (by decide))

lemma returnPackets {packets : ℤ} : Sound (Mars.returnPackets control packets) := by
  unfold Mars.returnPackets
  split_ifs with h
  · have hcast : (0 : ℚ) < packets := by exact_mod_cast h
    exact (hs.withTokens (add_nonneg hs.tokens_nonneg hcast.le)).clampRetained
  · exact hs

lemma reclaim : Sound (reclaimDtThreadBudget control) := by
  have hs' : Sound { control with budgetByThread := fun _ => 0 } :=
    { hs with budget_nonneg := fun _ => le_rfl, budget_idle := fun _ _ => rfl }
  exact hs'.returnPackets

end Sound

/-! ### One epoch -/

lemma returnPackets_frame (control : DtFaceControlState) (packets : ℤ) :
    returnPackets control packets
      = { control with tokens := (returnPackets control packets).tokens } := by
  unfold returnPackets
  split_ifs <;> rfl

section Epoch

variable (hs : Sound control)
include hs

lemma sound_afterShares : Sound (afterShares control A) := by
  have hcarry : ∀ t, (afterShares control A).carryByThread t = control.carryByThread t
      ∨ (0 < control.demandByThread t ∧ (afterShares control A).carryByThread t
        = Int.fract (shareOf control A (totalWeight control) t)) := by
    intro t
    by_cases ht : t < control.slots
    · by_cases hw : dtThreadWeight control t ≤ 0
      · exact .inl (by simp [afterShares, carryOf, ht, hw])
      · exact .inr ⟨dtThreadWeight_pos_iff.mp (not_le.mp hw),
          by simp [afterShares, carryOf, ht, hw]⟩
    · exact .inl (by simp [afterShares, ht])
  refine { hs with
    budget_nonneg := fun t => ?_, carry_nonneg := fun t => ?_, carry_lt_one := fun t => ?_,
    budget_idle := fun t hd => ?_, carry_idle := fun t hd => ?_ }
  · have h := hs.budget_nonneg t
    simp only [afterShares]
    split_ifs
    · exact add_nonneg h grantOf_nonneg
    · exact h
  · rcases hcarry t with h | ⟨-, h⟩
    · exact h ▸ hs.carry_nonneg t
    · exact h ▸ Int.fract_nonneg _
  · rcases hcarry t with h | ⟨-, h⟩
    · exact h ▸ hs.carry_lt_one t
    · exact h ▸ Int.fract_lt_one _
  · have hbudget : control.budgetByThread t = 0 := hs.budget_idle t hd
    have hweight : dtThreadWeight control t = 0 := dtThreadWeight_eq_zero hd
    simp [afterShares, grantOf, hweight, hbudget]
  · rcases hcarry t with h | ⟨hpos, -⟩
    · exact h.trans (hs.carry_idle t hd)
    · exact absurd hpos (not_lt.mpr hd)

lemma sound_assign (start : ℕ) :
    Sound (assignDtWeightedThreadBudget control A control.slots start).1 := by
  rcases assign_cases control A start with heq | ⟨-, -, spread, -, hspread, heq⟩ <;> rw [heq]
  · exact hs
  have hshares : Sound (afterShares control A) := sound_afterShares hs
  dsimp only
  rw [hspread.frame]
  refine { hshares with
    budget_nonneg := fun t => (hshares.budget_nonneg t).trans (hspread.budget_le t)
    carry_nonneg := fun t => ?_, carry_lt_one := fun t => ?_, carry_idle := fun t hd => ?_
    budget_idle := fun t hd => (hspread.idle t (.inr (dtThreadWeight_eq_zero hd).le)).trans
      (hshares.budget_idle t hd) }
  · rcases hspread.carry t with h | h
    · exact h ▸ hshares.carry_nonneg t
    · exact h.ge
  · rcases hspread.carry t with h | h
    · exact h ▸ hshares.carry_lt_one t
    · exact h ▸ one_pos
  · rcases hspread.carry t with h | h
    · exact h.trans (hshares.carry_idle t hd)
    · exact h

lemma sound_spendGrant : Sound (spendGrant control A).state := by
  unfold spendGrant
  split_ifs
  · exact hs
  · exact hs.returnPackets
  · exact { (sound_assign hs (A := A) control.budgetRR).returnPackets with }

lemma sound_drawGrant : Sound (drawGrant control).1 := by
  have hnonneg : 0 ≤ control.tokens - ⌊control.tokens⌋ := sub_nonneg.mpr (Int.floor_le _)
  simp only [drawGrant, truncate, if_pos hs.tokens_nonneg]
  split_ifs
  · exact { hs with tokens_nonneg := hnonneg }
  · exact { hs with tokens_nonneg := hnonneg }
  · exact { hs with }
  · exact hs

omit hs in
lemma minted_nonneg (hrate : 0 < control.rate) {now : Time} :
    0 ≤ elapsedSeconds control now * control.rate :=
  mul_nonneg (le_max_left _ _) hrate.le

lemma sound_refill (hrate : 0 < control.rate) (now : Time) :
    Sound (refillDtFaceTokens control now).state :=
  { hs with tokens_nonneg :=
      le_min (add_nonneg hs.tokens_nonneg (minted_nonneg hrate)) (by decide) }

lemma sound_distribute : Sound (distributeDtFaceBudget control).state := by
  rw [distributeDtFaceBudget, Outcome.go_bind]
  exact sound_spendGrant (sound_drawGrant hs.reclaim)

lemma sound_allocate (n : ℕ) (now : Time) (blocked : Bool) :
    Sound (allocateDtFaceBudgets n control now blocked).state := by
  have hs' := hs.ensureSlots n
  simp only [allocateDtFaceBudgets]
  split_ifs with hinactive hblocked hidle
  · exact hs
  · exact hs'.clearBlocked
  · exact { hs'.reclaim.clampRetained with }
  · push Not at hinactive
    exact sound_distribute (sound_refill hs' hinactive.2 now)

end Epoch

/-! ### Runs -/

/-- The invariant is kept by whatever happens to the control state. -/
lemma sound_step (hs : Sound control) {n : ℕ} {e : DtControlEvent} :
    Sound (dtControlStep n control e) := by
  cases e with
  | activate now =>
    simp only [dtControlStep, ensureDtControlActivated]
    split_ifs
    exacts [hs, { hs with }]
  | rateRound newRate starved => exact { hs with }
  | demand threadID delta => exact hs.noteDemand n threadID delta
  | take threadID maxPackets => exact hs.takeBudget n threadID maxPackets
  | allocate now blocked => exact sound_allocate hs n now blocked
  | clear now => exact (hs.ensureSlots n).clearBlocked

theorem sound_dtControlRun {n : ℕ} {es : List DtControlEvent} : Sound (dtControlRun n es) :=
  Steps.run_invariant (I := Sound) (fun _ _ hs => sound_step hs) sound_new es

end Mars
