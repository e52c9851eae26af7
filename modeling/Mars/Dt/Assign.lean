import Mars.Dt.Control
import Mathlib.Algebra.BigOperators.Group.Finset.Piecewise

/-!
The two loops with which an epoch of the scheduler hands out packets.

* `foldl_grantShare_eq`: the first loop, thread by thread: each gets the whole packets of its
  share and carries the fraction;
* `Spread`: what the second loop does with the packets left over;
* `assign_eq`, `assign_frame`, `totalBudget_assign`: the assignment as a whole.
-/

namespace Mars

open Finset Function

variable {control : DtFaceControlState} {A : ℤ} {W : ℚ} {order : List ℕ} {tid : ℕ} {start : ℕ}

/-! ### The first loop: whole packets of the shares -/

lemma rrOrder_perm {nThreads : ℕ} : (rrOrder nThreads start).Perm (List.range nThreads) := by
  have hrot : rrOrder nThreads start = (List.range nThreads).rotate start := by
    refine List.ext_getElem (by simp [rrOrder]) fun i hi hi' => ?_
    simp [rrOrder, List.getElem_rotate, Nat.add_comm]
  rw [hrot]
  exact List.rotate_perm _ _

/-- The share of a thread. -/
def shareOf (control : DtFaceControlState) (A : ℤ) (W : ℚ) (tid : ℕ) : ℚ :=
  A * (dtThreadWeight control tid / W) + control.carryByThread tid

/-- The packets that `grantShare` gives to a thread. -/
def grantOf (control : DtFaceControlState) (A : ℤ) (W : ℚ) (tid : ℕ) : ℤ :=
  if dtThreadWeight control tid ≤ 0 then 0
  else max 0 (min ⌊shareOf control A W tid⌋ (dtThreadQuotaCapPackets - control.budgetByThread tid))

/-- The carry that `grantShare` leaves a thread with; the cap of one packet is above any
fraction. -/
def carryOf (control : DtFaceControlState) (A : ℤ) (W : ℚ) (tid : ℕ) : ℚ :=
  if dtThreadWeight control tid ≤ 0 then control.carryByThread tid
  else Int.fract (shareOf control A W tid)

lemma grantShare_eq {a : ℤ} :
    grantShare A W (control, a) tid
      = ({ control with
            carryByThread := update control.carryByThread tid (carryOf control A W tid)
            budgetByThread := update control.budgetByThread tid
              (control.budgetByThread tid + grantOf control A W tid) },
          a + grantOf control A W tid) := by
  by_cases hw : dtThreadWeight control tid ≤ 0
  · simp [grantShare, carryOf, grantOf, hw]
  · have hcap : min (Int.fract (shareOf control A W tid)) dtThreadQuotaCarryCapPackets
        = Int.fract (shareOf control A W tid) := min_eq_left (Int.fract_lt_one _).le
    have hcarry : shareOf control A W tid - ⌊shareOf control A W tid⌋
        = Int.fract (shareOf control A W tid) := rfl
    simp only [grantShare, if_neg hw, carryOf, grantOf]
    rw [← shareOf, hcarry, hcap]
    by_cases hnone : dtThreadQuotaCapPackets - control.budgetByThread tid ≤ 0
        ∨ ⌊shareOf control A W tid⌋ ≤ 0
    · have hzero : max 0 (min ⌊shareOf control A W tid⌋
          (dtThreadQuotaCapPackets - control.budgetByThread tid)) = 0 := by
        rw [max_eq_left]
        rcases hnone with h | h
        · exact (min_le_right _ _).trans h
        · exact (min_le_left _ _).trans h
      rw [if_pos hnone, hzero, add_zero, add_zero, update_eq_self]
    · have hpos : max 0 (min ⌊shareOf control A W tid⌋
          (dtThreadQuotaCapPackets - control.budgetByThread tid))
          = min ⌊shareOf control A W tid⌋
            (dtThreadQuotaCapPackets - control.budgetByThread tid) := by
        rw [max_eq_right]
        exact le_min (by omega) (by omega)
      rw [if_neg hnone, hpos]

/-- **The first loop, thread by thread**: what a thread gets depends on its own entries
alone, so the order of the visits does not matter. -/
lemma foldl_grantShare_eq (hnodup : order.Nodup) {a : ℤ} :
    order.foldl (grantShare A W) (control, a)
      = ({ control with
            carryByThread := fun t =>
              if t ∈ order then carryOf control A W t else control.carryByThread t
            budgetByThread := fun t =>
              if t ∈ order then control.budgetByThread t + grantOf control A W t
              else control.budgetByThread t },
          a + (order.map (grantOf control A W)).sum) := by
  induction order generalizing control a with
  | nil => simp
  | cons u l ih =>
    obtain ⟨hu, hl⟩ := List.nodup_cons.mp hnodup
    rw [List.foldl_cons, grantShare_eq, ih hl]
    -- the entries of the threads still to come are those the loop found
    have hne : ∀ t ∈ l, t ≠ u := fun t ht h => hu (h ▸ ht)
    set after : DtFaceControlState := { control with
      carryByThread := update control.carryByThread u (carryOf control A W u)
      budgetByThread := update control.budgetByThread u
        (control.budgetByThread u + grantOf control A W u) } with hafter
    have hbudget : ∀ t ∈ l, after.budgetByThread t = control.budgetByThread t :=
      fun t ht => update_of_ne (hne t ht) _ _
    have hcarried : ∀ t ∈ l, after.carryByThread t = control.carryByThread t :=
      fun t ht => update_of_ne (hne t ht) _ _
    have hweight : ∀ t, dtThreadWeight after t = dtThreadWeight control t := fun _ => rfl
    have hshare : ∀ t ∈ l, shareOf after A W t = shareOf control A W t := by
      intro t ht
      rw [shareOf, shareOf, hweight, hcarried t ht]
    have hgrant : ∀ t ∈ l, grantOf after A W t = grantOf control A W t := by
      intro t ht
      rw [grantOf, grantOf, hweight, hshare t ht, hbudget t ht]
    have hcarry : ∀ t ∈ l, carryOf after A W t = carryOf control A W t := by
      intro t ht
      rw [carryOf, carryOf, hweight, hshare t ht, hcarried t ht]
    rw [List.map_congr_left hgrant, List.map_cons, List.sum_cons, add_assoc]
    congr 2
    · funext t
      by_cases ht : t ∈ l
      · simp [ht, hgrant t ht, hbudget t ht]
      · by_cases htu : t = u
        · subst htu
          simp [ht, hafter]
        · simp [ht, htu, hafter]
    · funext t
      by_cases ht : t ∈ l
      · simp [ht, hcarry t ht]
      · by_cases htu : t = u
        · subst htu
          simp [ht, hafter]
        · simp [ht, htu, hafter]

/-! ### The second loop: left-over packets -/

lemma foldl_betterCarry_fst (best : Option ℕ × ℚ) :
    (order.foldl (betterCarry control) best).1 = best.1
      ∨ ∃ t ∈ order, (order.foldl (betterCarry control) best).1 = some t
        ∧ 0 < dtThreadWeight control t := by
  induction order generalizing best with
  | nil => exact .inl rfl
  | cons u l ih =>
    rw [List.foldl_cons]
    rcases ih (betterCarry control best u) with h | ⟨t, ht, hsome, hw⟩
    · by_cases hkeep : (betterCarry control best u).1 = best.1
      · exact .inl (h.trans hkeep)
      · refine .inr ⟨u, List.mem_cons_self, ?_⟩
        rw [h]
        unfold betterCarry at hkeep ⊢
        split_ifs at hkeep ⊢ with hw hcap hbetter
        · exact absurd rfl hkeep
        · exact absurd rfl hkeep
        · exact ⟨rfl, not_le.mp hw⟩
        · exact absurd rfl hkeep
    · exact .inr ⟨t, List.mem_cons_of_mem u ht, hsome, hw⟩

lemma mem_of_bestTid_eq_some (h : bestTid control order = some tid) :
    tid ∈ order ∧ 0 < dtThreadWeight control tid := by
  have hfst : (order.foldl (betterCarry control) (none, -1)).1 = none ∨ _ :=
    foldl_betterCarry_fst (none, -1)
  rw [bestTid] at h
  rcases hfst with hnone | ⟨t, ht, hsome, hw⟩
  · exact absurd (hnone.symm.trans h) (by simp)
  · rw [hsome] at h
    rw [← Option.some.inj h]
    exact ⟨ht, hw⟩

/-- The search fails only if every thread is idle, full or carries no more than the search
starts from. -/
lemma foldl_betterCarry_eq_none {best : Option ℕ × ℚ}
    (h : (order.foldl (betterCarry control) best).1 = none) :
    best.1 = none ∧ ∀ t ∈ order, 0 < dtThreadWeight control t →
      control.budgetByThread t < dtThreadQuotaCapPackets → control.carryByThread t ≤ best.2 := by
  induction order generalizing best with
  | nil => exact ⟨h, by simp⟩
  | cons u l ih =>
    obtain ⟨hnone, hrest⟩ := ih h
    unfold betterCarry at hnone hrest
    split_ifs at hnone hrest with hw hcap hbetter
    · exact ⟨hnone, List.forall_mem_cons.mpr ⟨fun hpos => absurd hw (not_le.mpr hpos), hrest⟩⟩
    · exact ⟨hnone, List.forall_mem_cons.mpr
        ⟨fun _ hroom => absurd hcap (not_le.mpr hroom), hrest⟩⟩
    · exact ⟨hnone, List.forall_mem_cons.mpr ⟨fun _ _ => not_lt.mp hbetter, hrest⟩⟩

/-- What the second loop does: it changes budgets and carries only, hands out at most what is
left, serves only threads of the order that have weight, and uses up the carry of each
thread it serves. -/
structure Spread (order : List ℕ) (remaining : ℕ) (control : DtFaceControlState)
    (spread : DtFaceControlState × ℤ) : Prop where
  frame : spread.1 = { control with
    budgetByThread := spread.1.budgetByThread, carryByThread := spread.1.carryByThread }
  count_nonneg : 0 ≤ spread.2
  count_le : spread.2 ≤ remaining
  budget_le : ∀ t, control.budgetByThread t ≤ spread.1.budgetByThread t
  idle : ∀ t, t ∉ order ∨ dtThreadWeight control t ≤ 0 →
    spread.1.budgetByThread t = control.budgetByThread t
  total : ∀ s : Finset ℕ, (∀ t ∈ order, t ∈ s) →
    ∑ t ∈ s, spread.1.budgetByThread t = ∑ t ∈ s, control.budgetByThread t + spread.2
  carry : ∀ t, spread.1.carryByThread t = control.carryByThread t ∨ spread.1.carryByThread t = 0
  served : 0 < spread.2 → ∃ t ∈ order, spread.1.carryByThread t = 0

lemma spread_nothing (remaining : ℕ) : Spread order remaining control (control, 0) where
  frame := rfl
  count_nonneg := le_rfl
  count_le := Int.natCast_nonneg _
  budget_le _ := le_rfl
  idle _ _ := rfl
  total _ _ := (add_zero _).symm
  carry _ := .inl rfl
  served h := absurd h (lt_irrefl _)

/-- One packet more, given to a thread of the order that has weight. -/
lemma Spread.givePacket {remaining : ℕ} {spread : DtFaceControlState × ℤ} (hmem : tid ∈ order)
    (hw : 0 < dtThreadWeight control tid)
    (h : Spread order remaining (Mars.givePacket control tid) spread) :
    Spread order (remaining + 1) control (spread.1, spread.2 + 1) where
  frame := h.frame
  count_nonneg := by
    have := h.count_nonneg
    dsimp only
    omega
  count_le := by
    have := h.count_le
    dsimp only
    push_cast
    omega
  budget_le t := by
    refine le_trans ?_ (h.budget_le t)
    rcases eq_or_ne t tid with rfl | hne
    · simp [Mars.givePacket]
    · simp [Mars.givePacket, hne]
  idle t ht := by
    have hne : t ≠ tid := by
      rintro rfl
      rcases ht with ht | ht
      · exact ht hmem
      · exact absurd hw (not_lt.mpr ht)
    rw [h.idle t ht]
    exact update_of_ne hne _ _
  total s hs := by
    have hsum : ∑ t ∈ s, (Mars.givePacket control tid).budgetByThread t
        = ∑ t ∈ s, control.budgetByThread t + 1 := by
      have hsplit := add_sum_erase s control.budgetByThread (hs tid hmem)
      simp only [Mars.givePacket, sum_update_of_mem (hs tid hmem), sdiff_singleton_eq_erase]
      omega
    rw [h.total s hs, hsum]
    dsimp only
    omega
  carry t := by
    rcases eq_or_ne t tid with rfl | hne
    · rcases h.carry t with hc | hc
      · exact .inr (hc.trans (update_self _ _ _))
      · exact .inr hc
    · rw [show control.carryByThread t = (Mars.givePacket control tid).carryByThread t from
        (update_of_ne hne _ _).symm]
      exact h.carry t
  served _ := by
    refine ⟨tid, hmem, ?_⟩
    rcases h.carry tid with hc | hc
    · exact hc.trans (update_self _ _ _)
    · exact hc

lemma spread_spreadLeftover (order : List ℕ) (remaining : ℕ) (control : DtFaceControlState) :
    Spread order remaining control (spreadLeftover order remaining control) := by
  induction remaining generalizing control with
  | zero => exact spread_nothing 0
  | succ remaining ih =>
    rw [spreadLeftover]
    cases hbest : bestTid control order with
    | none => exact spread_nothing (remaining + 1)
    | some tid =>
      obtain ⟨hmem, hw⟩ := mem_of_bestTid_eq_some hbest
      exact (ih (givePacket control tid)).givePacket hmem hw

/-! ### The assignment -/

/-- The weights of all threads. -/
def totalWeight (control : DtFaceControlState) : ℚ :=
  ∑ t ∈ range control.slots, dtThreadWeight control t

/-- What the first loop hands out. -/
def sharesGranted (control : DtFaceControlState) (A : ℤ) : ℤ :=
  ∑ t ∈ range control.slots, grantOf control A (totalWeight control) t

/-- The state the first loop leaves. -/
def afterShares (control : DtFaceControlState) (A : ℤ) : DtFaceControlState :=
  { control with
    carryByThread := fun t =>
      if t < control.slots then carryOf control A (totalWeight control) t
      else control.carryByThread t
    budgetByThread := fun t =>
      if t < control.slots then
        control.budgetByThread t + grantOf control A (totalWeight control) t
      else control.budgetByThread t }

lemma sum_rrOrder {M : Type*} [AddCommMonoid M] {f : ℕ → M} {n : ℕ} :
    ((rrOrder n start).map f).sum = ∑ t ∈ range n, f t := by
  rw [(rrOrder_perm.map f).sum_eq]
  rfl

lemma mem_rrOrder {n t : ℕ} : t ∈ rrOrder n start ↔ t < n := by
  rw [rrOrder_perm.mem_iff, List.mem_range]

lemma grantOf_nonneg : 0 ≤ grantOf control A W tid := by
  unfold grantOf
  split_ifs
  exacts [le_rfl, le_max_left _ _]

lemma assign_eq (hA : 0 < A) (hW : 0 < totalWeight control) :
    assignDtWeightedThreadBudget control A control.slots start
      = (let spread := spreadLeftover (rrOrder control.slots start)
          (A - sharesGranted control A).toNat (afterShares control A)
         (spread.1, sharesGranted control A + spread.2)) := by
  have hslots : control.slots ≠ 0 := by
    intro h0
    rw [totalWeight, h0] at hW
    exact absurd hW (lt_irrefl _)
  have hloop : (rrOrder control.slots start).foldl (grantShare A (totalWeight control)) (control, 0)
      = (afterShares control A, sharesGranted control A) := by
    rw [foldl_grantShare_eq (rrOrder_perm.nodup_iff.mpr List.nodup_range), sum_rrOrder, zero_add]
    simp only [mem_rrOrder]
    rfl
  simp only [assignDtWeightedThreadBudget, sum_rrOrder]
  rw [if_neg (by simp [hslots, hA]), ← totalWeight, if_neg (not_le.mpr hW), hloop]

/-- Nothing is assigned, or the shares are granted and what is left over is spread. -/
lemma assign_cases (control : DtFaceControlState) (A : ℤ) (start : ℕ) :
    assignDtWeightedThreadBudget control A control.slots start = (control, 0)
      ∨ 0 < A ∧ 0 < totalWeight control ∧ ∃ spread,
        spread = spreadLeftover (rrOrder control.slots start) (A - sharesGranted control A).toNat
          (afterShares control A)
        ∧ Spread (rrOrder control.slots start) (A - sharesGranted control A).toNat
          (afterShares control A) spread
        ∧ assignDtWeightedThreadBudget control A control.slots start
          = (spread.1, sharesGranted control A + spread.2) := by
  by_cases h : 0 < A ∧ 0 < totalWeight control
  · exact .inr ⟨h.1, h.2, _, rfl, spread_spreadLeftover _ _ _, assign_eq h.1 h.2⟩
  · refine .inl ?_
    simp only [assignDtWeightedThreadBudget, sum_rrOrder]
    split_ifs with hguard hweight
    · rfl
    · rfl
    · exact absurd ⟨not_le.mp fun hA => hguard (.inl hA), not_le.mp hweight⟩ h

lemma totalBudget_afterShares (control : DtFaceControlState) (A : ℤ) :
    totalDtThreadBudget (afterShares control A)
      = totalDtThreadBudget control + sharesGranted control A := by
  rw [totalDtThreadBudget, totalDtThreadBudget, sharesGranted, ← sum_add_distrib]
  exact sum_congr rfl fun t ht => if_pos (mem_range.mp ht)

/-- What an assignment hands out is what the budgets gain. -/
lemma totalBudget_assign (control : DtFaceControlState) (A : ℤ) (start : ℕ) :
    totalDtThreadBudget (assignDtWeightedThreadBudget control A control.slots start).1
      = totalDtThreadBudget control
        + (assignDtWeightedThreadBudget control A control.slots start).2 := by
  rcases assign_cases control A start with heq | ⟨-, -, spread, -, hspread, heq⟩ <;> rw [heq]
  · rw [add_zero]
  · have htotal := hspread.total (range control.slots) fun t ht =>
      mem_range.mpr (mem_rrOrder.mp ht)
    have hshares := totalBudget_afterShares control A
    rw [totalDtThreadBudget] at hshares
    rw [totalDtThreadBudget, hspread.frame]
    dsimp only [afterShares] at hshares htotal ⊢
    rw [htotal, hshares, add_assoc]

/-- An assignment changes budgets and carries only. -/
lemma assign_frame (start : ℕ) :
    (assignDtWeightedThreadBudget control A control.slots start).1 = { control with
      budgetByThread :=
        (assignDtWeightedThreadBudget control A control.slots start).1.budgetByThread
      carryByThread :=
        (assignDtWeightedThreadBudget control A control.slots start).1.carryByThread } := by
  rcases assign_cases control A start with heq | ⟨-, -, spread, -, hspread, heq⟩ <;> rw [heq]
  exact hspread.frame

end Mars
