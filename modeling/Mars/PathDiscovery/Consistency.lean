import Mars.PathDiscovery.Rules

/-!
The path-discovery sets stay consistent.

* `SetsConsistent`: the valid faces are the faces of the wait list, which has no face
  twice; the awaited and the probed faces lie within them as they should;
* `Consistent`: the inductive form, which also says that before convergence only valid
  faces are probed;
* `consistent_step`: every handler keeps it;
* `pd_sets_consistent`: it holds in every run.

The only assumption is that the nexthops handed in with an Interest name each face once.
-/

namespace Mars

open Outcome List Finset

/-- The agreement of the sets of path discovery. -/
structure SetsConsistent (info : PathDiscoveryInfo) : Prop where
  mem_valid : ∀ f, f ∈ info.validUpstreams ↔ f ∈ tierFaces info.waitList
  nodup_wait : (tierFaces info.waitList).Nodup
  node_subset : info.convergedUpstreamNode ⊆ info.validUpstreams
  nodup_probed : info.probedUpstreams.Nodup
  tier_subset : ∀ f ∈ info.convergedUpstreamTier, f ∈ info.probedUpstreams

/-- The inductive form of `SetsConsistent`, for the state of the prefix `key`. -/
structure Consistent (key : Str) (info : PathDiscoveryInfo) : Prop
    extends SetsConsistent info where
  prefixKey_eq : info.prefixKey = key
  probed_valid : info.isNodeConverged = false → ∀ f ∈ info.probedUpstreams,
    f ∈ info.validUpstreams
  fresh : info.isInitialized = false → info.probedUpstreams = []

/-- The nexthops of an Interest name each face once. -/
def PdInput.DistinctFaces : PdInput → Prop
  | .interest _ _ _ nexthops => ((snapshotNexthops nexthops).map (·.nexthop)).Nodup
  | _ => True

lemma consistent_new {key : Str} : Consistent key (.new key) where
  prefixKey_eq := rfl
  mem_valid f := by simp [PathDiscoveryInfo.new]
  nodup_wait := nodup_nil
  node_subset := subset_rfl
  nodup_probed := nodup_nil
  tier_subset f hf := by simp [PathDiscoveryInfo.new] at hf
  probed_valid _ f hf := by simp [PathDiscoveryInfo.new] at hf
  fresh _ := rfl

variable {key : Str} {info : PathDiscoveryInfo} {nexthops : List (Option FibNextHopEntry)}

/-! ### Giving up faces -/

lemma tierFaces_removeFace {face : Face} :
    tierFaces (removeFaceFromWaitList info face).waitList
      = (tierFaces info.waitList).filter (· ≠ face) :=
  tierFaces_filter (· ≠ face) info.waitList

section

variable (h : Consistent key info)
include h

lemma Consistent.excludeFace (face : Face) : Consistent key (excludeFace info face) where
  prefixKey_eq := h.prefixKey_eq
  mem_valid f := by
    change f ∈ info.validUpstreams.erase face
      ↔ f ∈ tierFaces (removeFaceFromWaitList info face).waitList
    rw [tierFaces_removeFace, mem_erase, mem_filter, h.mem_valid, and_comm]
    simp
  nodup_wait := by
    change (tierFaces (removeFaceFromWaitList info face).waitList).Nodup
    rw [tierFaces_removeFace]
    exact h.nodup_wait.filter _
  node_subset := erase_subset_erase face h.node_subset
  nodup_probed := h.nodup_probed.erase face
  tier_subset f hf := by
    obtain ⟨hne, hmem⟩ := mem_erase.mp hf
    exact (mem_erase_of_ne hne).mpr (h.tier_subset f hmem)
  probed_valid hconv f hf := by
    obtain ⟨hne, hmem⟩ := h.nodup_probed.mem_erase_iff.mp hf
    exact mem_erase.mpr ⟨hne, h.probed_valid hconv f hmem⟩
  fresh hinit := by
    change info.probedUpstreams.erase face = []
    rw [h.fresh hinit, erase_nil]

/-! ### Convergence -/

omit h in
/-- Converging makes the sets consistent again even if probed faces have become
invalid. -/
lemma SetsConsistent.localNodeConverged (h : SetsConsistent info) (hkey : info.prefixKey = key)
    (hfresh : info.isInitialized = false → info.probedUpstreams = []) :
    (localNodeConverged info).Ensures (Consistent key) (Consistent key) fun _ => True := by
  refine ensures_localNodeConverged (fun hconv => ?_) (fun _ => ?_) fun _ => trivial
  · refine { h with prefixKey_eq := hkey, probed_valid := fun hnot => ?_, fresh := hfresh }
    rw [hconv] at hnot
    cases hnot
  · exact { h with
      prefixKey_eq := hkey
      tier_subset := fun f hf => by simp [converge, updateAfterPathDiscovery] at hf
      probed_valid := fun hnot => by cases hnot
      fresh := hfresh }

omit h in
lemma SetsConsistent.clearUpperTiers (h : SetsConsistent info) :
    SetsConsistent (clearUpperTiers info) where
  mem_valid f := by
    change f ∈ info.validUpstreams \ _ ↔ f ∈ tierFaces (_ ++ _)
    rw [tierFaces_clear, mem_tierFaces_take h.nodup_wait, mem_sdiff, mem_toFinset, h.mem_valid]
  nodup_wait := by
    change (tierFaces (_ ++ _)).Nodup
    rw [tierFaces_clear]
    have h1 := h.nodup_wait
    rw [← tierFaces_take_append_drop info.currentTier] at h1
    exact (nodup_append.mp h1).1
  node_subset := sdiff_subset_sdiff h.node_subset subset_rfl
  nodup_probed := h.nodup_probed
  tier_subset := h.tier_subset

lemma Consistent.checkCurrentTier :
    (checkCurrentTier info).Ensures (Consistent key) (Consistent key) fun _ => True :=
  ensures_checkCurrentTier (fun _ => h) (fun _ => trivial) fun _ =>
    h.toSetsConsistent.clearUpperTiers.localNodeConverged h.prefixKey_eq h.fresh

/-! ### Probing -/

omit h in
lemma SetsConsistent.probeFaces (h : SetsConsistent info) (tierIndex : ℕ) :
    SetsConsistent (probeFaces info tierIndex) := by
  rw [probeFaces_eq]
  exact { h with
    nodup_probed := Grouping.nodup_addDistinct h.nodup_probed
    tier_subset := fun f hf => by
      rw [Grouping.mem_addDistinct]
      rcases mem_union.mp hf with hf | hf
      · exact Or.inl (h.tier_subset f hf)
      · exact Or.inr (mem_toFinset.mp hf) }

lemma Consistent.probeFaces (hinit : info.isInitialized = true)
    (tierIndex : ℕ) : Consistent key (probeFaces info tierIndex) := by
  have hframe := probeFaces_eq info tierIndex
  refine { h.toSetsConsistent.probeFaces tierIndex with
    prefixKey_eq := (congrArg (·.prefixKey) hframe).trans h.prefixKey_eq
    probed_valid := ?_
    fresh := fun hnot => ?_ }
  · rw [hframe]
    intro hconv f hf
    rcases Grouping.mem_addDistinct.mp hf with hf | hf
    · exact h.probed_valid hconv f hf
    · obtain ⟨hop, hhop, rfl⟩ := mem_facesAt.mp hf
      exact (h.mem_valid _).mpr (mem_tierFaces_of_getD hhop)
  · rw [hframe] at hnot
    exact absurd (hinit.symm.trans hnot) (by decide)

lemma Consistent.probeTier (hinit : info.isInitialized = true)
    {node : Str} {tierIndex : ℕ} :
    (probeTier node info tierIndex).Ensures (Consistent key) (Consistent key)
      fun _ => True := by
  have hprobed := h.probeFaces hinit tierIndex
  exact ensures_probeTier (fun _ => h) (fun _ _ => hprobed) fun _ _ =>
    hprobed.toSetsConsistent.localNodeConverged hprobed.prefixKey_eq hprobed.fresh

omit h in
lemma SetsConsistent.removeTier (h : SetsConsistent info) {i : ℕ} :
    SetsConsistent (removeTier info i) where
  mem_valid f := by
    change f ∈ info.validUpstreams \ _ ↔ f ∈ tierFaces (info.waitList.set i [])
    rw [mem_tierFaces_set h.nodup_wait, mem_sdiff, mem_toFinset, h.mem_valid]
  nodup_wait := nodup_tierFaces_set h.nodup_wait
  node_subset := sdiff_subset_sdiff h.node_subset subset_rfl
  nodup_probed := h.nodup_probed
  tier_subset := h.tier_subset

omit h in
lemma SetsConsistent.foldl_removeTier (h : SetsConsistent info) {is : List ℕ} :
    SetsConsistent (is.foldl Mars.removeTier info) := by
  induction is generalizing info with
  | nil => exact h
  | cons i is ih => exact ih (h.removeTier)

lemma Consistent.firstTiers (hinit : info.isInitialized = false)
    (probeIdx : ℤ) (hdist : ((snapshotNexthops nexthops).map (·.nexthop)).Nodup) :
    Consistent key (firstTiers info probeIdx nexthops) := by
  have hprobed : (Mars.firstTiers info probeIdx nexthops).probedUpstreams = [] :=
    (firstTiers_probedUpstreams ..).trans (h.fresh hinit)
  have hsets : SetsConsistent (Mars.firstTiers info probeIdx nexthops) := by
    refine SetsConsistent.foldl_removeTier ?_
    exact { h with
      mem_valid := fun f => mem_toFinset
      nodup_wait := perm_tierFaces_group.nodup_iff.mpr hdist
      node_subset := subset_rfl }
  refine { hsets with
    prefixKey_eq := (firstTiers_prefixKey ..).trans h.prefixKey_eq
    probed_valid := fun _ f hf => ?_
    fresh := fun _ => hprobed }
  rw [hprobed] at hf
  cases hf

/-! ### The refresh -/

lemma Consistent.refresh (hconv : info.isNodeConverged = false)
    (hinit : info.isInitialized = true)
    (hdist : ((snapshotNexthops nexthops).map (·.nexthop)).Nodup) :
    Consistent key (refreshPathDiscoverySnapshot info nexthops) := by
  by_cases hne : snapshotNexthops nexthops = []
  · rwa [refresh_of_nil hne]
  rw [refresh_eq hne]
  exact {
    prefixKey_eq := h.prefixKey_eq
    mem_valid := fun f => by
      rw [mem_tierFaces_refreshed, mem_sdiff_disappeared]
      tauto
    nodup_wait := nodup_tierFaces_refreshed hdist
    node_subset := sdiff_subset_sdiff h.node_subset subset_rfl
    nodup_probed := nodup_refreshedProbed
    tier_subset := fun f hf => by
      -- an awaited face is probed, hence valid, so it is listed if it was not dropped
      obtain ⟨htier, hlisted⟩ := mem_sdiff_disappeared.mp hf
      have hmem := h.tier_subset f htier
      have hval := h.probed_valid hconv f hmem
      exact (mem_refreshedProbed h.nodup_probed).mpr ⟨hmem, hval, hlisted hval⟩
    probed_valid := fun _ f hf => by
      obtain ⟨-, hval, hlisted⟩ := (mem_refreshedProbed h.nodup_probed).mp hf
      exact mem_sdiff_disappeared.mpr ⟨hval, fun _ => hlisted⟩
    fresh := fun hnot => absurd (hinit.symm.trans hnot) (by decide) }

end

/-! ### The handlers -/

/-- A consistent state that is initialized. -/
def Started (key : Str) (info : PathDiscoveryInfo) : Prop :=
  Consistent key info ∧ info.isInitialized = true

lemma Consistent.initializeDiscovery (h : Consistent key info) {node : Str} {probeIdx : ℤ}
    (hdist : ((snapshotNexthops nexthops).map (·.nexthop)).Nodup) :
    (initializeDiscovery node info probeIdx nexthops).Ensures (Started key) (Consistent key)
      fun _ => True := by
  refine ensures_initializeDiscovery (fun hinit => ⟨h, hinit⟩) fun hinit => ?_
  have hfirst := h.firstTiers hinit probeIdx hdist
  have hset := firstTiers_isInitialized info probeIdx nexthops
  refine ((hfirst.probeTier hset).andGo probeTier_sameStage).mono ?_
    (fun _ hs => hs) fun _ _ => trivial
  exact fun s hs => ⟨{ hs.1 with }, hs.2.isInitialized.trans hset⟩

lemma Started.advanceProbe (h : Started key info) (hconv : info.isNodeConverged = false)
    {node : Str} {probeIdx : ℤ} (hdist : ((snapshotNexthops nexthops).map (·.nexthop)).Nodup) :
    (advanceProbe node info probeIdx nexthops).Ensures (Consistent key) (Consistent key)
      fun _ => True := by
  have hrefresh := h.1.refresh hconv h.2 hdist
  refine ensures_advanceProbe (fun _ _ => hrefresh) (fun _ _ => ?_) (fun _ => h.1) fun _ => h.1
  have hnext : Consistent key (nextTier info probeIdx nexthops) := { hrefresh with }
  exact hnext.probeTier (refresh_stage.2.1.trans h.2)

lemma keeps_consistent : PdKeeps (Consistent key) where
  marks h _ _ _ _ _ := { h with }
  exclude h face := h.excludeFace face
  countTier h _ :=
    { h with tier_subset := fun f hf => h.tier_subset f (mem_of_mem_erase hf) }
  converge h := h.toSetsConsistent.localNodeConverged h.prefixKey_eq h.fresh
  checkTier h := h.checkCurrentTier

lemma Consistent.reportNode (h : Consistent key info) {face : Face} :
    Consistent key (reportNode info face) :=
  { h with node_subset := (erase_subset _ _).trans h.node_subset }

/-- **Every handler keeps the sets consistent.** -/
theorem consistent_step {node : Str} (h : Consistent key info) {i : PdInput}
    (hi : i.DistinctFaces) : Consistent key (prefixStep node info i) := by
  refine keeps_consistent.pdLocked h (fun _ hs face => hs.reportNode) ?_
  rintro srcNode probeIdx inFace nexthops rfl
  exact keeps_consistent.interest h (fun _ _ => h.initializeDiscovery hi)
    (fun _ hs => hs.1) fun _ hs hconv => hs.advanceProbe hconv hi

/-- The nexthops handed in with an event name each face once. -/
def PdEvent.DistinctFaces : PdEvent → Prop
  | .interest _ _ nexthops => ((snapshotNexthops nexthops).map (·.nexthop)).Nodup
  | _ => True

lemma distinctFaces_of_mem_inputsOf {es : List PdEvent} (hes : ∀ e ∈ es, e.DistinctFaces)
    {i : PdInput} (hi : i ∈ inputsOf key es) : i.DistinctFaces := by
  obtain ⟨pre, post, hsplit⟩ := append_of_mem hi
  obtain ⟨es₁, e, es₂, rfl, hkj, -⟩ := exists_event_of_inputsOf hsplit
  have hdist := hes e (by simp)
  cases e with
  | interest name inFace nexthops =>
    simp only [PdEvent.input] at hkj
    split at hkj
    · cases hkj
    · obtain ⟨probeIdx, -, heq⟩ := Option.map_eq_some_iff.mp hkj
      cases heq
      exact hdist
  | nack name inFace nackReason inRecords =>
    cases hkj
    trivial
  | data name inFace payload inRecords =>
    cases payload <;> cases hkj
    trivial

lemma consistent_pdRun {node key : Str} {es : List PdEvent} (hes : ∀ e ∈ es, e.DistinctFaces) :
    Consistent key (pdRun node es key) := by
  have hguard : GuardedRun node key (fun _ i => i.DistinctFaces) es :=
    Steps.guarded_of_forall_mem (fun _ hi _ => distinctFaces_of_mem_inputsOf hes hi) _
  exact prefix_invariant consistent_new (fun _ _ h hi => consistent_step h hi) hguard

/-- **Path-discovery sets stay consistent**: after every sequence of events whose nexthop
lists name each face once, in the state of every prefix that is initialized. -/
theorem pd_sets_consistent (node : Str) (es : List PdEvent) (hes : ∀ e ∈ es, e.DistinctFaces)
    (key : Str) :
    (pdRun node es key).isInitialized = true → SetsConsistent (pdRun node es key) := by
  intro _
  exact (consistent_pdRun hes).toSetsConsistent

/-- A run in which a face has been probed, one is awaited and one has answered with
NoRoute. -/
theorem pd_sets_consistent_three_hops :
    (pdRun conNode [probe '0' 9 [(1, 10), (2, 10), (3, 15)], noRoute 2] ['p']).isInitialized = true
      ∧ SetsConsistent
        (pdRun conNode [probe '0' 9 [(1, 10), (2, 10), (3, 15)], noRoute 2] ['p']) :=
  have hinit : (pdRun conNode [probe '0' 9 [(1, 10), (2, 10), (3, 15)], noRoute 2]
      ['p']).isInitialized = true := by decide
  ⟨hinit, pd_sets_consistent conNode _ (by simp [probe, noRoute, PdEvent.DistinctFaces,
    snapshotNexthops]) ['p'] hinit⟩

end Mars
