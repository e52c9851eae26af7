import Mars.PathDiscovery.Consistency

/-!
`skipTier` and dead tiers.

`isCurrentTierAllInvalid` reads the tier list, `skipTier` clears the wait list from the
current tier on.  Before convergence every tier of the wait list is part of the tier at
the same index of the tier list, so a tier that the test finds dead is dead
(`Aligned.dead`).  Convergence compacts the tier list while `currentTier` keeps indexing
the wait list, and a late NACK may then clear a live tier (`skipTier_on_live_tier`).

* `DeadTier`: the current tier of the wait list has no valid face;
* `Aligned`: the inductive form of the agreement of the two lists before convergence;
* `LateNackAligned`: a NoRoute NACK after convergence finds the current tier of the wait
  list in the tier list;
* `skipTier_only_on_dead_tier`: in every run whose NACKs do, `skipTier` is called on dead
  tiers only.
-/

namespace Mars

open Outcome List

/-- The current tier of the wait list has no valid face. -/
def DeadTier (info : PathDiscoveryInfo) : Prop :=
  ∀ hop ∈ info.waitList.getD info.currentTier [], hop.nexthop ∉ info.validUpstreams

/-- Every tier of the wait list is part of the tier of the tier list at its index. -/
def TiersAligned (info : PathDiscoveryInfo) : Prop :=
  ∀ i, ∀ hop ∈ info.waitList.getD i [], hop ∈ info.tierList.getD i []

/-- A call of `skipTier` finds a dead tier. -/
def SkipsDeadTier : PdAction → Prop
  | .skipTier info => DeadTier info
  | _ => True

/-- A NoRoute NACK after convergence: the faces of the current tier of the wait list,
but the one given up, are faces of the current tier of the tier list. -/
def LateNackAligned (info : PathDiscoveryInfo) : PdInput → Prop
  | .nack inFace nackReason _ =>
    nackReason = nackReasonNoRoute → info.isInvalidNode = false →
      info.isNodeConverged = true →
      ∀ hop ∈ (excludeNacked info inFace).waitList.getD info.currentTier [],
        hop.nexthop ∈ (info.tierList.getD info.currentTier []).map (·.nexthop)
  | _ => True

instance (info : PathDiscoveryInfo) : ∀ i, Decidable (LateNackAligned info i)
  | .interest _ _ _ _ => isTrue trivial
  | .nack _ _ _ => inferInstanceAs (Decidable (_ → _ → _ → _))
  | .data _ _ _ _ => isTrue trivial

/-- What is kept up to convergence, for the state of the prefix `key`. -/
structure Aligned (node key : Str) (info : PathDiscoveryInfo) : Prop where
  prefixKey_eq : info.prefixKey = key
  aligned : info.isNodeConverged = false → TiersAligned info
  -- the producer node of the prefix converges as soon as it is initialized
  producer : info.isInitialized = true → info.isNodeConverged = false →
    isProducerNode node key = false
  fresh : info.isInitialized = false → info.probedUpstreams = []

variable {node key : Str} {info : PathDiscoveryInfo} {inFace : Face} {inRecords : List Face}

lemma aligned_new : Aligned node key (.new key) where
  prefixKey_eq := rfl
  aligned _ i hop hhop := by simp [PathDiscoveryInfo.new] at hhop
  producer hinit := by cases hinit
  fresh _ := rfl

/-! ### The test and the tiers -/

lemma notMem_valid_of_allInvalid (h : isCurrentTierAllInvalid info = true) {hop : HopSnapshot}
    (hhop : hop ∈ info.tierList.getD info.currentTier []) :
    hop.nexthop ∉ info.validUpstreams := by
  unfold isCurrentTierAllInvalid at h
  split at h
  · rename_i hlen
    rw [getD_eq_default _ _ hlen] at hhop
    cases hhop
  · have hall := all_eq_true.mp h hop hhop
    simpa using hall

/-- A current tier that lies within the tier list is dead if the test says so. -/
lemma deadTier_of_allInvalid (h : isCurrentTierAllInvalid info = true)
    (hsub : ∀ hop ∈ info.waitList.getD info.currentTier [],
      hop.nexthop ∈ (info.tierList.getD info.currentTier []).map (·.nexthop)) :
    DeadTier info := by
  intro hop hhop
  obtain ⟨hop', hhop', heq⟩ := mem_map.mp (hsub hop hhop)
  rw [← heq]
  exact notMem_valid_of_allInvalid h hhop'

lemma TiersAligned.dead (h : TiersAligned info) (hall : isCurrentTierAllInvalid info = true) :
    DeadTier info :=
  deadTier_of_allInvalid hall fun hop hhop => mem_map_of_mem (h _ hop hhop)

/-- Deleting hops from the wait list keeps the lists aligned. -/
lemma TiersAligned.filter (h : TiersAligned info) {info' : PathDiscoveryInfo}
    {p : HopSnapshot → Bool}
    (hwait : info'.waitList = info.waitList.map fun tier => tier.filter p)
    (htier : info'.tierList = info.tierList) : TiersAligned info' := by
  intro i hop hhop
  rw [hwait, getD_map_filter] at hhop
  rw [htier]
  exact h i hop (mem_of_mem_filter hhop)

lemma TiersAligned.excludeFace (h : TiersAligned info) {face : Face} :
    TiersAligned (excludeFace info face) :=
  h.filter rfl rfl

lemma Aligned.excludeFace (h : Aligned node key info) {face : Face} :
    Aligned node key (excludeFace info face) where
  prefixKey_eq := h.prefixKey_eq
  aligned hconv := (h.aligned hconv).excludeFace
  producer := h.producer
  fresh hinit := by
    change info.probedUpstreams.erase face = []
    rw [h.fresh hinit, erase_nil]

lemma Aligned.foldl_excludeFace (h : Aligned node key info) {faces : Multiset Face} :
    Aligned node key (faces.foldl Mars.excludeFace info) := by
  induction faces using Multiset.induction_on generalizing info with
  | empty => simpa using h
  | cons face faces ih =>
    rw [Multiset.foldl_cons]
    exact ih (h.excludeFace)

/-- Nothing is asked of a state that has converged. -/
lemma aligned_localNodeConverged (hkey : info.prefixKey = key)
    (hfresh : info.isInitialized = false → info.probedUpstreams = []) :
    (localNodeConverged info).Ensures (Aligned node key) (Aligned node key) SkipsDeadTier := by
  refine ensures_localNodeConverged (fun hconv => ?_) (fun _ => ?_) fun _ => trivial
  · exact ⟨hkey, fun hnot => absurd (hconv.symm.trans hnot) (by decide),
      fun _ hnot => absurd (hconv.symm.trans hnot) (by decide), hfresh⟩
  · exact ⟨hkey, fun hnot => Bool.noConfusion hnot, fun _ hnot => Bool.noConfusion hnot, hfresh⟩

/-! ### Inside the Interest handler

The producer node converges when it is initialized, unless there is no tier to probe; then
the tier list is empty and the test of the current tier makes it converge. -/

/-- What holds between the initialization and the test of the current tier. -/
structure Probing (node key : Str) (info : PathDiscoveryInfo) : Prop where
  prefixKey_eq : info.prefixKey = key
  isInitialized : info.isInitialized = true
  aligned : info.isNodeConverged = false → TiersAligned info
  producer : info.isNodeConverged = false →
    isProducerNode node key = false ∨ info.tierList = [] ∧ info.probedUpstreams = []

lemma Probing.toAligned (h : Probing node key info)
    (hproducer : isProducerNode node key = false ∨ info.isNodeConverged = true) :
    Aligned node key info where
  prefixKey_eq := h.prefixKey_eq
  aligned := h.aligned
  producer _ hconv :=
    hproducer.resolve_right fun hnot => absurd (hnot.symm.trans hconv) (by decide)
  fresh hnot := absurd (h.isInitialized.symm.trans hnot) (by decide)

lemma Aligned.toProbing (h : Aligned node key info) (hinit : info.isInitialized = true) :
    Probing node key info :=
  ⟨h.prefixKey_eq, hinit, h.aligned, fun hconv => Or.inl (h.producer hinit hconv)⟩

lemma probing_localNodeConverged (hkey : info.prefixKey = key)
    (hinit : info.isInitialized = true) :
    (localNodeConverged info).Ensures
      (fun s => Probing node key s ∧ s.isNodeConverged = true) (Aligned node key)
      SkipsDeadTier := by
  refine ensures_localNodeConverged (fun hconv => ?_) (fun _ => ?_) fun _ => trivial
  · exact ⟨⟨hkey, hinit, fun hnot => absurd (hconv.symm.trans hnot) (by decide),
      fun hnot => absurd (hconv.symm.trans hnot) (by decide)⟩, hconv⟩
  · exact ⟨⟨hkey, hinit, fun hnot => Bool.noConfusion hnot,
      fun hnot => Bool.noConfusion hnot⟩, rfl⟩

/-- Probing a tier leaves the tiers aligned; the producer node converges if it has a tier
to probe. -/
lemma probing_probeTier {tierIndex : ℕ} (hkey : info.prefixKey = key)
    (hinit : info.isInitialized = true)
    (haligned : info.isNodeConverged = false → TiersAligned info)
    (hshort : info.waitList.length ≤ tierIndex →
      info.tierList = [] ∧ info.probedUpstreams = []) :
    (probeTier node info tierIndex).Ensures (Probing node key) (Aligned node key)
      SkipsDeadTier := by
  have hframe := probeFaces_eq info tierIndex
  have hkey' := (congrArg (·.prefixKey) hframe).trans hkey
  have hinit' := (congrArg (·.isInitialized) hframe).trans hinit
  refine ensures_probeTier (fun hlen => ?_) (fun _ hprod => ?_) fun _ hprod => ?_
  · exact ⟨hkey, hinit, haligned, fun _ => Or.inr (hshort hlen)⟩
  · refine ⟨hkey', hinit', ?_, fun _ => Or.inl (hkey ▸ hprod)⟩
    rw [hframe]
    exact haligned
  · exact (probing_localNodeConverged hkey' hinit').mono (fun _ hs => hs.1) (fun _ hs => hs)
      fun _ ha => ha

lemma tiersAligned_firstTiers (info : PathDiscoveryInfo) (probeIdx : ℤ)
    (nexthops : List (Option FibNextHopEntry)) :
    TiersAligned (firstTiers info probeIdx nexthops) := by
  have hloop : ∀ (is : List ℕ) {info : PathDiscoveryInfo}, TiersAligned info →
      TiersAligned (is.foldl removeTier info) := by
    intro is
    induction is with
    | nil => exact fun h => h
    | cons j is ih =>
      intro info h
      refine ih fun i hop hhop => h i hop ?_
      change hop ∈ (info.waitList.set j []).getD i [] at hhop
      rw [getD_eq_getElem?_getD, getElem?_set] at hhop
      rw [getD_eq_getElem?_getD]
      split at hhop
      · split at hhop <;> simp at hhop
      · exact hhop
  refine hloop _ ?_
  intro i hop hhop
  exact hhop

section Interest

variable {probeIdx : ℤ} {inFace : Face} {nexthops : List (Option FibNextHopEntry)}

/-- What initialization hands on: a producer node that has not converged has just been
initialized. -/
def Initialized (node key : Str) (probeIdx : ℤ) (info : PathDiscoveryInfo) : Prop :=
  Probing node key info ∧ (info.isNodeConverged = false →
    isProducerNode node key = false ∨ info.probeIndex = probeIdx)

lemma Aligned.initializeDiscovery (h : Aligned node key info) :
    (initializeDiscovery node info probeIdx nexthops).Ensures (Initialized node key probeIdx)
      (Aligned node key) SkipsDeadTier := by
  refine ensures_initializeDiscovery
    (fun hinit => ⟨h.toProbing hinit, fun hconv => Or.inl (h.producer hinit hconv)⟩)
    fun hinit => ?_
  have hprobe : (probeTier node (firstTiers info probeIdx nexthops)
      (firstTiers info probeIdx nexthops).currentTier).Ensures (Probing node key)
        (Aligned node key) SkipsDeadTier := by
    refine probing_probeTier ((firstTiers_prefixKey ..).trans h.prefixKey_eq)
      (firstTiers_isInitialized ..) (fun _ => tiersAligned_firstTiers info probeIdx nexthops)
      fun hshort => ?_
    rw [firstTiers_currentTier, firstTiers_waitList_length] at hshort
    exact ⟨length_eq_zero_iff.mp (by omega), (firstTiers_probedUpstreams ..).trans (h.fresh hinit)⟩
  refine (hprobe.andGo probeTier_sameStage).mono ?_ (fun _ hs => hs) fun _ ha => ha
  rintro s ⟨hs, hsame⟩
  exact ⟨{ hs with }, fun _ => Or.inr (hsame.probeIndex.trans (firstTiers_probeIndex ..))⟩

lemma TiersAligned.refresh (h : TiersAligned info) :
    TiersAligned (refreshPathDiscoverySnapshot info nexthops) := by
  by_cases hne : snapshotNexthops nexthops = []
  · rwa [refresh_of_nil hne]
  · rw [refresh_eq hne]
    exact fun i hop hhop => hhop

/-- A state in which the handler is still probing. -/
def Unconverged (node key : Str) (info : PathDiscoveryInfo) : Prop :=
  Probing node key info ∧ info.isNodeConverged = false

lemma Initialized.advanceProbe (h : Initialized node key probeIdx info)
    (hconv : info.isNodeConverged = false) :
    (advanceProbe node info probeIdx nexthops).Ensures (Unconverged node key)
      (Aligned node key) SkipsDeadTier := by
  obtain ⟨hprobing, hproducer⟩ := h
  -- another probe index than that of the packet is found at other nodes only
  have hother : info.probeIndex ≠ probeIdx → isProducerNode node key = false :=
    fun hne => (hproducer hconv).resolve_right hne
  obtain ⟨hkey, hinit, hconv', -⟩ := refresh_stage
  replace hkey := hkey.trans hprobing.prefixKey_eq
  replace hinit := hinit.trans hprobing.isInitialized
  have hrefresh : TiersAligned (refreshPathDiscoverySnapshot info nexthops) :=
    (hprobing.aligned hconv).refresh
  refine ensures_advanceProbe (fun hidx _ => ?_) (fun hidx hlen => ?_)
    (fun _ => ⟨hprobing, hconv⟩) fun hidx => hprobing.toAligned (Or.inl (hother (by omega)))
  · exact ⟨hkey, fun _ => hrefresh, fun _ _ => hother (by omega),
      fun hnot => absurd (hinit.symm.trans hnot) (by decide)⟩
  · have hnot := hother (by omega)
    refine ensures_probeTier (fun hshort => absurd hlen (not_lt.mpr hshort)) (fun _ _ => ?_)
      fun _ hprod => ?_
    · rw [probeFaces_eq]
      exact ⟨⟨hkey, hinit, fun _ => hrefresh, fun _ => Or.inl hnot⟩, hconv'.trans hconv⟩
    · rw [show (nextTier info probeIdx nexthops).prefixKey = key from hkey, hnot] at hprod
      cases hprod

lemma Unconverged.screenIngress (h : Unconverged node key info) :
    (screenIngress info inFace).Ensures (Unconverged node key) (Aligned node key)
      SkipsDeadTier := by
  obtain ⟨h, hconv⟩ := h
  refine ensures_screenIngress (fun _ _ => ⟨h, hconv⟩) (fun _ _ _ _ => ⟨{ h with }, hconv⟩)
    (fun hmem _ => ?_) fun _ => ?_
  · refine h.toAligned (Or.inl ((h.producer hconv).resolve_right fun hnone => ?_))
    rw [hnone.2] at hmem
    cases hmem
  · refine ⟨⟨h.prefixKey_eq, h.isInitialized, fun _ => (h.aligned hconv).excludeFace,
      fun _ => (h.producer hconv).imp_right fun hnone => ⟨hnone.1, ?_⟩⟩, hconv⟩
    change info.probedUpstreams.erase inFace = []
    rw [hnone.2, erase_nil]

/-- Before convergence the test of the current tier is right, and it makes a producer node
without tiers converge. -/
lemma Unconverged.checkCurrentTier (h : Unconverged node key info) :
    (checkCurrentTier info).Ensures (Aligned node key) (Aligned node key) SkipsDeadTier := by
  obtain ⟨h, hconv⟩ := h
  refine ensures_checkCurrentTier (fun hlive => ?_) (fun hall => (h.aligned hconv).dead hall)
    fun _ => ?_
  · refine h.toAligned (Or.inl ((h.producer hconv).resolve_right fun hnone => ?_))
    rw [isCurrentTierAllInvalid, hnone.1] at hlive
    simp at hlive
  · exact aligned_localNodeConverged h.prefixKey_eq fun hnot =>
      absurd (h.isInitialized.symm.trans hnot) (by decide)

end Interest

/-! ### The handlers -/

lemma skipsDeadTier_of_isSend {a : PdAction} (h : a.IsSend) : SkipsDeadTier a := by
  cases a <;> first | exact h.elim | trivial

section

variable (h : Aligned node key info)
include h

lemma Aligned.countOffFrozen {outFace : Face} : Aligned node key (countOffFrozen info outFace) := by
  refine countOffFrozen_cases (fun _ => h) (fun _ _ _ => { h with }) fun _ _ _ => ?_
  have hthawed : Aligned node key { countedOff info outFace with isPdFrozen := false } :=
    { h with }
  exact { hthawed.foldl_excludeFace with }

lemma Aligned.interest {srcNode : Str} {probeIdx : ℤ}
    {nexthops : List (Option FibNextHopEntry)} :
    (pathDiscoveryInterest node info srcNode probeIdx inFace nexthops).Ensures
      (Aligned node key) (Aligned node key) SkipsDeadTier := by
  have hO : ∀ a : PdAction, a.IsSend → SkipsDeadTier a := fun _ => skipsDeadTier_of_isSend
  refine ensures_interest hO (fun _ => { h with }) (fun _ => h)
    (fun _ _ => h.initializeDiscovery) (Q := Aligned node key) (fun s hs => ?_) fun s hs => ?_
  · exact ensures_probePhase hO (fun hconv => hs.1.toAligned (Or.inr hconv))
      (fun hconv => hs.advanceProbe hconv) (fun s hs => hs.screenIngress)
      (fun s hs => hs.checkCurrentTier) (fun s hs => { hs with }) fun s hs _ => hs
  · refine ensures_forwardProbe hO (fun _ => hs) fun idx outFace _ => ?_
    have hsent : Aligned node key { s with probedSchedulerIndex := idx } := { hs with }
    exact hsent.countOffFrozen

lemma Aligned.excludeNacked (inFace : Face) : Aligned node key (excludeNacked info inFace) := by
  unfold Mars.excludeNacked
  split
  · exact h
  · exact h.excludeFace

omit h in
/-- What giving up a face that answered NoRoute leaves alone. -/
lemma excludeNacked_stage :
    (excludeNacked info inFace).tierList = info.tierList
      ∧ (excludeNacked info inFace).currentTier = info.currentTier
      ∧ (excludeNacked info inFace).isNodeConverged = info.isNodeConverged := by
  unfold excludeNacked
  split <;> exact ⟨rfl, rfl, rfl⟩

/-- A NoRoute NACK calls `skipTier` on a dead tier only. -/
lemma Aligned.deadTier_of_nack (hinv : info.isInvalidNode = false)
    (hlate : LateNackAligned info (.nack inFace nackReasonNoRoute inRecords))
    (hall : isCurrentTierAllInvalid (Mars.excludeNacked info inFace) = true) :
    DeadTier (Mars.excludeNacked info inFace) := by
  obtain ⟨htier, hct, hconv'⟩ := excludeNacked_stage
  cases hconv : info.isNodeConverged with
  | false => exact ((h.excludeNacked inFace).aligned (hconv'.trans hconv)).dead hall
  | true =>
    refine deadTier_of_allInvalid hall ?_
    rw [htier, hct]
    exact hlate rfl hinv hconv

lemma Aligned.nack {nackReason : ℕ}
    (hlate : LateNackAligned info (.nack inFace nackReason inRecords)) :
    (pathDiscoveryNack info inFace nackReason inRecords).Ensures (Aligned node key)
      (Aligned node key) SkipsDeadTier := by
  have hexclude := h.excludeNacked inFace
  refine ensures_nack (fun _ => skipsDeadTier_of_isSend) h (fun hreason hinv => ?_)
    (fun s hs => { hs with }) fun s hs _ => hs
  refine ensures_checkCurrentTier (fun _ => hexclude)
    (fun hall => h.deadTier_of_nack hinv (hreason ▸ hlate) hall) fun _ => ?_
  exact aligned_localNodeConverged hexclude.prefixKey_eq hexclude.fresh

lemma Aligned.data {tierConverged nodeConverged : Bool} :
    (pathDiscoveryData node info inFace tierConverged nodeConverged inRecords).Ensures
      (Aligned node key) (Aligned node key) SkipsDeadTier := by
  have hcount : Aligned node key (countOffTier info inFace) := by
    unfold countOffTier
    split
    · exact h
    · exact { h with }
  refine ensures_data (fun _ => skipsDeadTier_of_isSend)
    (ensures_processTier (G := Aligned node key) (fun _ => h) (fun _ => hcount) fun _ _ _ =>
      aligned_localNodeConverged hcount.prefixKey_eq hcount.fresh) fun s hs => ?_
  unfold processNode
  split
  · exact { hs with }
  · exact hs

/-- A NoRoute NACK outside a freeze takes another face than its own away only if the
current tier is dead. -/
lemma Aligned.nack_frame
    (hlate : LateNackAligned info (.nack inFace nackReasonNoRoute inRecords))
    (hfrozen : info.isPdFrozen = false) {g : Face} (hg : g ≠ inFace)
    (hval : g ∈ info.validUpstreams) :
    g ∈ (pathDiscoveryNack info inFace nackReasonNoRoute inRecords).state.validUpstreams
      ∨ DeadTier (Mars.excludeFace info inFace) := by
  have hexclude : Mars.excludeNacked info inFace = Mars.excludeFace info inFace := by
    rw [Mars.excludeNacked, hfrozen]
    rfl
  have hkept : g ∈ (Mars.excludeFace info inFace).validUpstreams :=
    Finset.mem_erase.mpr ⟨hg, hval⟩
  let Kept (s : PathDiscoveryInfo) : Prop :=
    g ∈ s.validUpstreams ∨ DeadTier (Mars.excludeFace info inFace)
  suffices h : (pathDiscoveryNack info inFace nackReasonNoRoute inRecords).Ensures Kept Kept
      fun _ => True from h.state
  refine ensures_nack (fun _ _ => trivial) (Or.inl hval) (fun _ hinv => ?_)
    (fun _ hs => hs) fun _ hs _ => hs
  refine ensures_checkCurrentTier (fun _ => Or.inl (hexclude ▸ hkept)) (fun _ => trivial)
    fun hall => ?_
  have hdead := hexclude ▸ h.deadTier_of_nack hinv hlate hall
  exact ensures_localNodeConverged (fun _ => Or.inr hdead) (fun _ => Or.inr hdead)
    fun _ => trivial

/-- Every step whose late NACK is aligned keeps the tiers aligned. -/
lemma aligned_step {i : PdInput} (hi : LateNackAligned info i) :
    (pdLocked node info i).Ensures (Aligned node key) (Aligned node key) SkipsDeadTier := by
  cases i with
  | interest srcNode probeIdx inFace nexthops =>
    exact h.interest
  | nack inFace nackReason inRecords => exact h.nack hi
  | data inFace tierConverged nodeConverged inRecords =>
    exact h.data

end

lemma aligned_pdRun {es : List PdEvent} (hes : GuardedRun node key LateNackAligned es) :
    Aligned node key (pdRun node es key) :=
  prefix_invariant aligned_new (fun _ _ h hi => (aligned_step h hi).state) hes

/-- **`skipTier` fires on dead tiers only**, in every run whose late NACKs are aligned: a
call finds no valid face in the current tier of the wait list, and a NoRoute NACK from `f`
outside a freeze takes another valid face away only if the current tier has no valid face
but `f`. -/
theorem skipTier_only_on_dead_tier (node key : Str) (es : List PdEvent) (e : PdEvent)
    (i : PdInput) (hi : e.input = some (key, i))
    (hes : GuardedRun node key LateNackAligned (es ++ [e])) :
    (∀ info, .skipTier info ∈ (pdHandle node (pdRun node es) e).out →
      ∀ hop ∈ info.waitList.getD info.currentTier [], hop.nexthop ∉ info.validUpstreams)
    ∧ ∀ f inRecords, i = .nack f nackReasonNoRoute inRecords →
      let info := pdRun node es key
      info.isPdFrozen = false → ∀ g, g ≠ f → g ∈ info.validUpstreams →
        g ∉ (pdRun node (es ++ [e]) key).validUpstreams →
        ∀ hop ∈ info.waitList.getD info.currentTier [], hop.nexthop ≠ f →
          hop.nexthop ∉ info.validUpstreams := by
  obtain ⟨hes, hlast⟩ := hes.last hi
  have halign := aligned_pdRun hes
  refine ⟨fun info hskip => ?_, ?_⟩
  · rw [pdHandle_out hi] at hskip
    exact (aligned_step halign hlast).mem_out hskip
  · rintro f inRecords rfl info hfrozen g hg hval hgone hop hhop hne hmem
    rw [pdRun_concat hi] at hgone
    have hdead := (halign.nack_frame hlast hfrozen hg hval).resolve_left hgone
    refine hdead hop ?_ (Finset.mem_erase.mpr ⟨hne, hmem⟩)
    change hop ∈ (info.waitList.map fun tier => tier.filter (·.nexthop ≠ f)).getD _ []
    rw [getD_map_filter, mem_filter]
    exact ⟨hhop, by simpa using hne⟩

/-- A converged prefix with one tier: a late NACK from one of its faces leaves the other
one valid. -/
theorem skipTier_only_on_dead_tier_late_nack :
    let es := [probe '0' 9 [(1, 10), (2, 10)], report 1 true false, report 2 true false]
    (pdRun conNode es ['p']).isNodeConverged = true
    ∧ (∀ info, .skipTier info ∈ (pdHandle conNode (pdRun conNode es) (noRoute 2)).out →
        ∀ hop ∈ info.waitList.getD info.currentTier [], hop.nexthop ∉ info.validUpstreams)
    ∧ ∀ f inRecords, PdInput.nack 2 nackReasonNoRoute [] = .nack f nackReasonNoRoute inRecords →
      let info := pdRun conNode es ['p']
      info.isPdFrozen = false → ∀ g, g ≠ f → g ∈ info.validUpstreams →
        g ∉ (pdRun conNode (es ++ [noRoute 2]) ['p']).validUpstreams →
        ∀ hop ∈ info.waitList.getD info.currentTier [], hop.nexthop ≠ f →
          hop.nexthop ∉ info.validUpstreams := by
  intro es
  have hguard : GuardedRun conNode ['p'] LateNackAligned (es ++ [noRoute 2]) := by decide
  exact ⟨by decide, skipTier_only_on_dead_tier conNode ['p'] es (noRoute 2) _ rfl hguard⟩

/-- **A late NACK may clear a live tier**: the first tier is gone when the node converges
with two faces in the second one, so that the tier list has one tier and the current tier
is past its end.  A NACK from one of the two faces then takes the other one away as well. -/
theorem skipTier_on_live_tier :
    let es := [probe '0' 9 [(1, 10), (2, 11), (4, 11)], probe '1' 9 [(1, 10), (2, 11), (4, 11)],
      noRoute 1, report 2 true false, report 4 true false]
    let info := pdRun conNode es ['p']
    .skipTier (excludeFace info 2) ∈ (pdHandle conNode (pdRun conNode es) (noRoute 2)).out
      ∧ (∃ hop ∈ (excludeFace info 2).waitList.getD (excludeFace info 2).currentTier [],
        hop.nexthop ∈ (excludeFace info 2).validUpstreams)
      ∧ info.isPdFrozen = false ∧ 4 ∈ info.validUpstreams
      ∧ 4 ∉ (pdRun conNode (es ++ [noRoute 2]) ['p']).validUpstreams := by
  decide

end Mars
