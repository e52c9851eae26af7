import Mars.PathDiscovery.Coverage

/-!
A frozen prefix can be unfrozen, as long as the refreshes leave a frozen face and do not
mix tiers.

The freeze of a tier ends when the last of its faces has been probed, which needs a frozen
face that is still in the round of probed faces.  A refresh may drop all frozen faces and
leave the flag (`frozen_without_frozen_face`), or it may put probed and unprobed faces into
one tier, which are then frozen together.

* `UnmixedAt`: a tier is probed as a whole or not at all;
* `Freezable`: a frozen prefix has a frozen face, and all frozen faces are probed;
* `FreezeSafe`: the condition on the nexthops of a refresh;
* `frozen_can_thaw`: in every run whose refreshes meet it, the state is `Freezable`.
-/

namespace Mars

open Outcome List

/-- The tier at an index is probed as a whole or not at all. -/
def UnmixedAt (info : PathDiscoveryInfo) (i : ℕ) : Prop :=
  (∀ f ∈ facesAt info i, f ∈ info.probedUpstreams)
    ∨ ∀ f ∈ facesAt info i, f ∉ info.probedUpstreams

/-- The state of a freeze, and what later freezes rely on. -/
structure Freezable (info : PathDiscoveryInfo) : Prop where
  unmixed : ∀ i, UnmixedAt info i
  frozen : info.isPdFrozen = true →
    info.frozenFaces ≠ ∅ ∧ ∀ f ∈ info.frozenFaces, f ∈ info.probedUpstreams
  thawed : info.isPdFrozen = false → info.frozenFaces = ∅ ∧ info.frozenRecoverFaces = ∅

/-- The nexthops do not put a probed and an unprobed face into one tier, other than the one
probed next: valid faces of equal cost are both probed or both unprobed. -/
def UnmixedTiers (info : PathDiscoveryInfo) (nexthops : List (Option FibNextHopEntry)) : Prop :=
  ∀ hop ∈ snapshotNexthops nexthops, ∀ hop' ∈ snapshotNexthops nexthops,
    hop.nexthop ∈ info.validUpstreams → hop'.nexthop ∈ info.validUpstreams →
    hop.cost = hop'.cost →
    Grouping.rank ((snapshotNexthops nexthops).map (·.cost)) hop.cost ≠ info.currentTier + 1 →
    (hop.nexthop ∈ info.probedUpstreams ↔ hop'.nexthop ∈ info.probedUpstreams)

/-- The condition on an Interest: its nexthops name each face once; if it refreshes the
tiers, a frozen prefix keeps a frozen face and no tier is mixed. -/
def FreezeSafe (node : Str) (info : PathDiscoveryInfo) : PdInput → Prop
  | .interest srcNode probeIdx _ nexthops =>
    ((snapshotNexthops nexthops).map (·.nexthop)).Nodup
      ∧ (Advances node info srcNode probeIdx → snapshotNexthops nexthops ≠ [] →
        (info.isPdFrozen = true → ∃ f ∈ info.frozenFaces, f ∈ latestFaces nexthops)
          ∧ UnmixedTiers info nexthops)
  | _ => True

instance (info : PathDiscoveryInfo) (nexthops : List (Option FibNextHopEntry)) :
    Decidable (UnmixedTiers info nexthops) :=
  inferInstanceAs (Decidable (∀ hop ∈ snapshotNexthops nexthops,
    ∀ hop' ∈ snapshotNexthops nexthops, _))

instance (node : Str) (info : PathDiscoveryInfo) : ∀ i, Decidable (FreezeSafe node info i)
  | .interest _ _ _ _ => inferInstanceAs (Decidable (_ ∧ (_ → _ → (_ → _) ∧ _)))
  | .nack _ _ _ => isTrue trivial
  | .data _ _ _ _ => isTrue trivial

variable {key : Str} {info : PathDiscoveryInfo} {node : Str} {inFace : Face}

lemma freezable_new : Freezable (.new key) where
  unmixed i := Or.inr fun f _ => by simp [PathDiscoveryInfo.new]
  frozen hfrozen := by cases hfrozen
  thawed _ := ⟨rfl, rfl⟩

/-! ### Giving up faces -/

lemma facesAt_filter {info' : PathDiscoveryInfo} {p : Face → Bool}
    (hwait : info'.waitList = info.waitList.map fun tier => tier.filter fun hop => p hop.nexthop)
    {i : ℕ} : facesAt info' i = (facesAt info i).filter p := by
  rw [facesAt, facesAt, hwait, getD_map_filter, filter_map]
  rfl

/-- Deleting the same faces from the wait list and from the probed faces mixes no tier. -/
lemma UnmixedAt.filter {i : ℕ} (h : UnmixedAt info i) {info' : PathDiscoveryInfo}
    (p : Face → Bool)
    (hwait : info'.waitList = info.waitList.map fun tier => tier.filter fun hop => p hop.nexthop)
    (hprobed : ∀ f, f ∈ info'.probedUpstreams ↔ f ∈ info.probedUpstreams ∧ p f = true) :
    UnmixedAt info' i := by
  unfold UnmixedAt
  rw [facesAt_filter hwait]
  refine h.imp (fun hall f hf => ?_) fun hnone f hf hmem => ?_
  · obtain ⟨hf, hp⟩ := mem_filter.mp hf
    exact (hprobed f).mpr ⟨hall f hf, hp⟩
  · exact hnone f (mem_of_mem_filter hf) ((hprobed f).mp hmem).1

lemma unmixedAt_excludeFace {i : ℕ} (h : UnmixedAt info i) (hnd : info.probedUpstreams.Nodup)
    {face : Face} : UnmixedAt (excludeFace info face) i := by
  refine h.filter (· ≠ face) rfl fun f => ?_
  change f ∈ info.probedUpstreams.erase face ↔ _
  rw [hnd.mem_erase_iff, decide_eq_true_iff, and_comm]

namespace Freezable

variable (h : Freezable info)
include h

/-- A face that is not frozen may be given up. -/
lemma excludeFace (hnd : info.probedUpstreams.Nodup) {face : Face}
    (hface : info.isPdFrozen = true → face ∉ info.probedUpstreams) :
    Freezable (excludeFace info face) where
  unmixed i := unmixedAt_excludeFace (h.unmixed i) hnd
  frozen hfrozen := by
    refine ⟨(h.frozen hfrozen).1, fun f hf => ?_⟩
    change f ∈ info.probedUpstreams.erase face
    rw [erase_of_not_mem (hface hfrozen)]
    exact (h.frozen hfrozen).2 f hf
  thawed := h.thawed

lemma countOffFrozen (hnd : info.probedUpstreams.Nodup)
    {outFace : Face} : Freezable (countOffFrozen info outFace) := by
  refine countOffFrozen_cases (fun _ => h) (fun hfrozen _ hne => ?_) fun _ _ hempty => ?_
  · exact { h with
      frozen := fun _ => ⟨hne, fun f hf => (h.frozen hfrozen).2 f (Finset.mem_of_mem_erase hf)⟩
      thawed := fun hnot => absurd (hfrozen.symm.trans hnot) (by decide) }
  · -- the freeze ends: its faces leave the wait list and the probed faces together
    rw [thaw, foldl_excludeFace_eq]
    refine ⟨fun i => (h.unmixed i).filter (· ∉ info.frozenRecoverFaces) rfl fun f => ?_,
      fun hnot => Bool.noConfusion hnot, fun _ => ⟨hempty, rfl⟩⟩
    change f ∈ info.frozenRecoverFaces.val.foldl List.erase info.probedUpstreams ↔ _
    rw [foldl_erase_eq hnd, mem_filter]

/-! ### Convergence and probing -/

lemma localNodeConverged : (localNodeConverged info).Ensures Freezable Freezable fun _ => True :=
  ensures_localNodeConverged (fun _ => h) (fun _ => { h with }) fun _ => trivial

lemma checkCurrentTier : (checkCurrentTier info).Ensures Freezable Freezable fun _ => True := by
  refine ensures_checkCurrentTier (fun _ => h) (fun _ => trivial) fun _ =>
    Freezable.localNodeConverged ⟨fun i => ?_, h.frozen, h.thawed⟩
  have hsub : ∀ f ∈ facesAt (clearUpperTiers info) i, f ∈ facesAt info i := by
    intro f hf
    obtain ⟨hop, hhop, rfl⟩ := mem_facesAt.mp hf
    exact mem_facesAt.mpr ⟨hop, mem_getD_of_mem_clear hhop, rfl⟩
  exact (h.unmixed i).imp (fun hall f hf => hall f (hsub f hf))
    fun hnone f hf => hnone f (hsub f hf)

end Freezable

/-- Probing a tier mixes no other tier, and leaves none of its own faces out. -/
lemma freezable_probeTier {tierIndex : ℕ} (hnd : (tierFaces info.waitList).Nodup)
    (hunmixed : ∀ i, i ≠ tierIndex → UnmixedAt info i) (hfrozen : info.isPdFrozen = true →
      info.frozenFaces ≠ ∅ ∧ ∀ f ∈ info.frozenFaces, f ∈ info.probedUpstreams)
    (hthawed : info.isPdFrozen = false → info.frozenFaces = ∅ ∧ info.frozenRecoverFaces = ∅) :
    (probeTier node info tierIndex).Ensures Freezable Freezable fun _ => True := by
  have hframe := probeFaces_eq info tierIndex
  have hprobed : Freezable (probeFaces info tierIndex) := by
    rw [hframe]
    refine ⟨fun i => ?_, fun hfr => ⟨(hfrozen hfr).1, fun f hf =>
      Grouping.mem_addDistinct.mpr (Or.inl ((hfrozen hfr).2 f hf))⟩, hthawed⟩
    by_cases hi : i = tierIndex
    · subst hi
      exact Or.inl fun f hf => Grouping.mem_addDistinct.mpr (Or.inr hf)
    · refine (hunmixed i hi).imp (fun hall f hf => ?_) fun hnone f hf hmem => ?_
      · exact Grouping.mem_addDistinct.mpr (Or.inl (hall f hf))
      · rcases Grouping.mem_addDistinct.mp hmem with hmem | hmem
        · exact hnone f hf hmem
        · obtain ⟨hop, hhop, rfl⟩ := mem_facesAt.mp hf
          obtain ⟨hop', hhop', heq⟩ := mem_facesAt.mp hmem
          exact disjoint_tiers hnd hi hhop hhop' heq.symm
  refine ensures_probeTier (fun hlen => ⟨fun i => ?_, hfrozen, hthawed⟩) (fun _ _ => hprobed)
    fun _ _ => hprobed.localNodeConverged
  by_cases hi : i = tierIndex
  · subst hi
    refine Or.inl fun f hf => ?_
    rw [facesAt, getD_eq_default _ _ hlen] at hf
    cases hf
  · exact hunmixed i hi

/-! ### The refresh -/

section Advance

variable {nexthops : List (Option FibNextHopEntry)} {probeIdx : ℤ}

/-- After a refresh that mixes no tier, only the tier probed next may be mixed. -/
lemma UnmixedTiers.refreshed (h : UnmixedTiers info nexthops)
    (hnd : info.probedUpstreams.Nodup) {i : ℕ} (hi : i ≠ info.currentTier + 1) :
    (∀ f ∈ ((refreshedTiers info nexthops).getD i []).map (·.nexthop),
        f ∈ refreshedProbed info nexthops)
      ∨ ∀ f ∈ ((refreshedTiers info nexthops).getD i []).map (·.nexthop),
        f ∉ refreshedProbed info nexthops := by
  by_cases hsome : ∃ hop ∈ (refreshedTiers info nexthops).getD i [],
      hop.nexthop ∈ info.probedUpstreams
  · obtain ⟨hop, hhop, hprobed⟩ := hsome
    obtain ⟨hmem, hval, hrank⟩ := mem_refreshedTiers.mp hhop
    refine Or.inl fun f hf => ?_
    obtain ⟨hop', hhop', rfl⟩ := mem_map.mp hf
    obtain ⟨hmem', hval', hrank'⟩ := mem_refreshedTiers.mp hhop'
    have hcost : hop.cost = hop'.cost :=
      cost_eq_of_mem_group (mem_group_iff.mpr ⟨hmem, hrank⟩) (mem_group_iff.mpr ⟨hmem', hrank'⟩)
    have hsame := h hop hmem hop' hmem' hval hval' hcost (by omega)
    exact (mem_refreshedProbed hnd).mpr
      ⟨hsame.mp hprobed, hval', mem_latestFaces.mpr ⟨hop', hmem', rfl⟩⟩
  · refine Or.inr fun f hf hprobed => hsome ?_
    obtain ⟨hop, hhop, rfl⟩ := mem_map.mp hf
    exact ⟨hop, hhop, ((mem_refreshedProbed hnd).mp hprobed).1⟩

lemma Freezable.advanceProbe (h : Freezable info) (hcons : Consistent key info)
    (hconv : info.isNodeConverged = false) (hinit : info.isInitialized = true)
    (hdist : ((snapshotNexthops nexthops).map (·.nexthop)).Nodup)
    (hsafe : info.probeIndex < probeIdx → snapshotNexthops nexthops ≠ [] →
      (info.isPdFrozen = true → ∃ f ∈ info.frozenFaces, f ∈ latestFaces nexthops)
        ∧ UnmixedTiers info nexthops) :
    (advanceProbe node info probeIdx nexthops).Ensures Freezable Freezable fun _ => True := by
  have hnd := (hcons.refresh hconv hinit hdist).nodup_wait
  by_cases hne : snapshotNexthops nexthops = []
  · have hsame : refreshPathDiscoverySnapshot info nexthops = info := refresh_of_nil hne
    refine ensures_advanceProbe (fun _ _ => hsame.symm ▸ h) (fun _ _ => ?_) (fun _ => h)
      fun _ => h
    refine freezable_probeTier hnd (fun i _ => ?_) ?_ ?_
    · rw [nextTier, hsame]
      exact h.unmixed i
    · rw [nextTier, hsame]
      exact h.frozen
    · rw [nextTier, hsame]
      exact h.thawed
  have hframe : refreshPathDiscoverySnapshot info nexthops = _ := refresh_eq hne
  -- frozen faces are probed, hence valid: those that are listed stay frozen and probed
  have hfrozen : info.probeIndex < probeIdx → info.isPdFrozen = true →
      info.frozenFaces \ disappeared info nexthops ≠ ∅
        ∧ ∀ f ∈ info.frozenFaces \ disappeared info nexthops,
          f ∈ refreshedProbed info nexthops := by
    intro hidx hfr
    obtain ⟨f, hf, hlisted⟩ := (hsafe hidx hne).1 hfr
    refine ⟨Finset.ne_empty_of_mem (mem_sdiff_disappeared.mpr ⟨hf, fun _ => hlisted⟩),
      fun g hg => ?_⟩
    obtain ⟨hg, hlisted⟩ := mem_sdiff_disappeared.mp hg
    have hprobed := (h.frozen hfr).2 g hg
    have hval := hcons.probed_valid hconv g hprobed
    exact (mem_refreshedProbed hcons.nodup_probed).mpr ⟨hprobed, hval, hlisted hval⟩
  have hthawed : info.isPdFrozen = false → info.frozenFaces \ disappeared info nexthops = ∅
      ∧ info.frozenRecoverFaces \ disappeared info nexthops = ∅ := by
    intro hth
    rw [(h.thawed hth).1, (h.thawed hth).2, Finset.empty_sdiff]
    exact ⟨rfl, rfl⟩
  refine ensures_advanceProbe (fun hidx hlen => ?_) (fun hidx hlen => ?_) (fun _ => h) fun _ => h
  · rw [hframe] at hlen ⊢
    refine ⟨fun i => ?_, hfrozen hidx, hthawed⟩
    by_cases hi : i = info.currentTier + 1
    · -- no tier is left at this index
      refine Or.inl fun f hf => ?_
      dsimp only at hlen
      rw [facesAt, getD_eq_default _ _ (by dsimp only; omega)] at hf
      cases hf
    · exact (hsafe hidx hne).2.refreshed hcons.nodup_probed hi
  · refine freezable_probeTier hnd (fun i hi => ?_) ?_ ?_
    · rw [nextTier, hframe] at hi ⊢
      rw [hframe] at hlen
      dsimp only at hlen hi
      exact (hsafe hidx hne).2.refreshed hcons.nodup_probed (by omega)
    · rw [nextTier, hframe]
      exact hfrozen hidx
    · rw [nextTier, hframe]
      exact hthawed

end Advance

/-! ### The handlers -/

/-- Freezing the tier of a probed face freezes probed faces. -/
lemma Freezable.freezeTier (h : Freezable info) (hfrozen : info.isPdFrozen = false)
    (hprobed : inFace ∈ info.probedUpstreams) {tier : List HopSnapshot}
    (htier : tierOf info.waitList inFace = some tier) : Freezable (freezeTier info tier) := by
  obtain ⟨hmem, i, hi⟩ := exists_of_tierOf htier
  refine { h with frozen := fun _ => ?_, thawed := fun hnot => Bool.noConfusion hnot }
  have hfaces : (Mars.freezeTier info tier).frozenFaces = (tier.map (·.nexthop)).toFinset := by
    rw [Mars.freezeTier, (h.thawed hfrozen).1, Finset.empty_union]
  rw [hfaces]
  refine ⟨Finset.ne_empty_of_mem (mem_toFinset.mpr hmem), fun f hf => ?_⟩
  rw [mem_toFinset, ← hi] at hf
  rw [← hi] at hmem
  -- the tier has a probed face, so it is probed as a whole
  exact ((h.unmixed i).resolve_right fun hnone => hnone inFace hmem hprobed) f hf

lemma Freezable.screenIngress (h : Freezable info) (hcons : Consistent key info) :
    (screenIngress info inFace).Ensures Freezable Freezable fun _ => True :=
  ensures_screenIngress (fun _ _ => h)
    (fun _ hprobed hfrozen htier => h.freezeTier hfrozen hprobed htier) (fun _ _ => h)
    fun hnot => h.excludeFace hcons.nodup_probed fun _ => hnot

/-- The two invariants together. -/
def FreezeInv (key : Str) (info : PathDiscoveryInfo) : Prop := Consistent key info ∧ Freezable info

section

variable (h : FreezeInv key info)
include h

variable {nexthops : List (Option FibNextHopEntry)}

/-- Initialization hands on an initialized state; if it has just been initialized, the
packet does not advance the probe index. -/
lemma FreezeInv.initializeDiscovery {probeIdx : ℤ}
    (hdist : ((snapshotNexthops nexthops).map (·.nexthop)).Nodup) :
    (initializeDiscovery node info probeIdx nexthops).Ensures
      (fun s => FreezeInv key s ∧ s.isInitialized = true ∧ (s = info ∨ s.probeIndex = probeIdx))
      (FreezeInv key) fun _ => True := by
  obtain ⟨hcons, hfreeze⟩ := h
  refine ensures_initializeDiscovery
    (fun hinit => ⟨⟨hcons, hfreeze⟩, hinit, Or.inl rfl⟩) fun hinit => ?_
  have hfirst := hcons.firstTiers hinit probeIdx hdist
  have hset := firstTiers_isInitialized info probeIdx nexthops
  have hnone : (firstTiers info probeIdx nexthops).probedUpstreams = [] :=
    (firstTiers_probedUpstreams ..).trans (hcons.fresh hinit)
  have hprobe : (probeTier node (firstTiers info probeIdx nexthops)
      (firstTiers info probeIdx nexthops).currentTier).Ensures Freezable Freezable
        fun _ => True := by
    refine freezable_probeTier hfirst.nodup_wait (fun i _ => Or.inr fun f _ => ?_) ?_ ?_
    · rw [hnone]
      exact not_mem_nil
    · rw [firstTiers_isPdFrozen, firstTiers_frozenFaces, firstTiers_probedUpstreams]
      exact hfreeze.frozen
    · rw [firstTiers_isPdFrozen, firstTiers_frozenFaces, firstTiers_frozenRecoverFaces]
      exact hfreeze.thawed
  refine (((hfirst.probeTier hset).and hprobe).andGo probeTier_sameStage).mono
    ?_ (fun _ hs => hs) fun _ _ => trivial
  rintro s ⟨⟨hc, hf⟩, hsame⟩
  exact ⟨⟨{ hc with }, { hf with }⟩, hsame.isInitialized.trans hset,
    Or.inr (hsame.probeIndex.trans (firstTiers_probeIndex ..))⟩

lemma FreezeInv.interest {srcNode : Str} {probeIdx : ℤ}
    (hsafe : FreezeSafe node info (.interest srcNode probeIdx inFace nexthops)) :
    (pathDiscoveryInterest node info srcNode probeIdx inFace nexthops).Ensures (FreezeInv key)
      (FreezeInv key) fun _ => True := by
  obtain ⟨hdist, hrefresh⟩ := hsafe
  refine ensures_interest (fun _ _ => trivial) (fun _ => ⟨{ h.1 with }, { h.2 with }⟩) (fun _ => h)
    (P := fun s => FreezeInv key s ∧ s.isInitialized = true ∧ (s.isNodeConverged = false →
      s.probeIndex < probeIdx → snapshotNexthops nexthops ≠ [] →
        (s.isPdFrozen = true → ∃ f ∈ s.frozenFaces, f ∈ latestFaces nexthops)
          ∧ UnmixedTiers s nexthops)) (Q := FreezeInv key)
    (fun hrel hinv => ?_) (fun s hs => ?_) fun s hs => ?_
  · refine (h.initializeDiscovery hdist).mono ?_ (fun _ hs => hs) fun _ _ => trivial
    rintro s ⟨hs, hinit, rfl | hidx⟩
    · exact ⟨hs, hinit, fun hconv hlt => hrefresh ⟨hrel, hinv, hinit, hconv, hlt⟩⟩
    · exact ⟨hs, hinit, fun _ hlt => absurd hlt (by rw [hidx]; exact lt_irrefl _)⟩
  · obtain ⟨⟨hcons, hfreeze⟩, hinit, hsafe⟩ := hs
    refine ensures_probePhase (P := FreezeInv key) (Q := FreezeInv key) (T := FreezeInv key)
      (fun _ _ => trivial) (fun _ => ⟨hcons, hfreeze⟩) (fun hconv => ?_) (fun s hs => ?_)
      (fun s hs => ?_) (fun s hs => ⟨{ hs.1 with }, { hs.2 with }⟩) fun s hs _ => hs
    · exact (Started.advanceProbe ⟨hcons, hinit⟩ hconv hdist).and
        (hfreeze.advanceProbe hcons hconv hinit hdist (hsafe hconv))
    · exact (keeps_consistent.screenIngress hs.1).and (hs.2.screenIngress hs.1)
    · exact hs.1.checkCurrentTier.and hs.2.checkCurrentTier
  · refine ensures_forwardProbe (fun _ _ => trivial) (fun _ => hs) fun idx outFace _ => ?_
    have hcons : Consistent key { s with probedSchedulerIndex := idx } := { hs.1 with }
    have hfreeze : Freezable { s with probedSchedulerIndex := idx } := { hs.2 with }
    exact ⟨keeps_consistent.countOffFrozen hcons, hfreeze.countOffFrozen hcons.nodup_probed⟩

lemma FreezeInv.nack {nackReason : ℕ} {inRecords : List Face} :
    (pathDiscoveryNack info inFace nackReason inRecords).Ensures (FreezeInv key) (FreezeInv key)
      fun _ => True := by
  have hexclude : FreezeInv key (excludeNacked info inFace) := by
    unfold excludeNacked
    split
    · exact h
    · rename_i hnot
      exact ⟨h.1.excludeFace inFace,
        h.2.excludeFace h.1.nodup_probed fun hfrozen => absurd hfrozen hnot⟩
  refine ensures_nack (P := FreezeInv key) (fun _ _ => trivial) h (fun _ _ => ?_)
    (fun s hs => ⟨{ hs.1 with }, { hs.2 with }⟩) fun s hs _ => hs
  exact hexclude.1.checkCurrentTier.and hexclude.2.checkCurrentTier

omit h in
lemma Freezable.data (h : Freezable info) {tierConverged nodeConverged : Bool}
    {inRecords : List Face} :
    (pathDiscoveryData node info inFace tierConverged nodeConverged inRecords).Ensures Freezable
      Freezable fun _ => True := by
  have hcount : Freezable (countOffTier info inFace) := by
    unfold countOffTier
    split
    · exact h
    · exact { h with }
  refine ensures_data (fun _ _ => trivial) (ensures_processTier (G := Freezable) (fun _ => h)
    (fun _ => hcount) fun _ _ _ => hcount.localNodeConverged) fun s hs => ?_
  unfold processNode
  split
  · exact { hs with }
  · exact hs

lemma freezeInv_step {i : PdInput} (hi : FreezeSafe node info i) :
    FreezeInv key (prefixStep node info i) := by
  cases i with
  | interest srcNode probeIdx inFace nexthops =>
    exact (h.interest hi).state
  | nack inFace nackReason inRecords => exact (h.nack).state
  | data inFace tierConverged nodeConverged inRecords =>
    exact ((keeps_consistent.data h.1 (fun _ hs face => hs.reportNode)).and (h.2.data)).state

end

/-- **A frozen prefix can be unfrozen** after every run whose refreshes are safe: it has a
frozen face, and all its frozen faces are in the round of probed faces; a prefix that is
not frozen has none to recover. -/
theorem frozen_can_thaw (node key : Str) (es : List PdEvent)
    (hes : GuardedRun node key (FreezeSafe node) es) :
    let info := pdRun node es key
    (info.isPdFrozen = true →
      info.frozenFaces ≠ ∅ ∧ ∀ f ∈ info.frozenFaces, f ∈ info.probedUpstreams)
    ∧ (info.isPdFrozen = false → info.frozenFaces = ∅ ∧ info.frozenRecoverFaces = ∅) := by
  have hinv : FreezeInv key (pdRun node es key) :=
    prefix_invariant (I := FreezeInv key) ⟨consistent_new, freezable_new⟩
      (fun _ _ h hi => freezeInv_step h hi) hes
  exact ⟨hinv.2.frozen, hinv.2.thawed⟩

/-- A tier of two faces is frozen by an Interest that one of them sends. -/
theorem frozen_can_thaw_two_faces :
    let es := [probe '0' 9 [(1, 10), (2, 10), (3, 12)], probe '0' 1 [(2, 10), (3, 12)]]
    let info := pdRun conNode es ['p']
    info.isPdFrozen = true ∧ (info.isPdFrozen = true →
      info.frozenFaces ≠ ∅ ∧ ∀ f ∈ info.frozenFaces, f ∈ info.probedUpstreams)
    ∧ (info.isPdFrozen = false → info.frozenFaces = ∅ ∧ info.frozenRecoverFaces = ∅) :=
  have hfrozen : (pdRun conNode [probe '0' 9 [(1, 10), (2, 10), (3, 12)],
      probe '0' 1 [(2, 10), (3, 12)]] ['p']).isPdFrozen = true := by decide
  ⟨hfrozen, frozen_can_thaw conNode ['p'] _ (by decide)⟩

/-- **A refresh may take the frozen faces away**: the tier of faces `1` and `2` is frozen,
face `2` is probed and counted off, and the next probe index comes from face `1`, which is
not among its own nexthops. -/
theorem frozen_without_frozen_face :
    let info := pdRun conNode [probe '0' 9 [(1, 10), (2, 10), (3, 12)],
      probe '0' 1 [(2, 10), (3, 12)], probe '1' 1 [(2, 10), (3, 12)]] ['p']
    info.isPdFrozen = true ∧ info.frozenFaces = ∅ := by
  decide

end Mars
