import Mars.PathDiscovery.SkipTier

/-!
The next hops of a converged prefix and the faces it is asked for on.

A face on which a relevant Interest of the prefix arrives is a downstream of the node.  The
handler gives it up at once, or freezes its tier and gives the tier up when the freeze
ends.  Convergence is not held up by a freeze, and an Interest that is dropped early or
arrives while another tier is frozen gives up nothing, so a downstream may become a next
hop (`downstream_becomes_next_hop`).

* `Handled`: a face is no longer valid, or goes with the pending freeze;
* `DownstreamSafe`: the condition on a step, on the packet and the state it finds;
* `Excluding`: up to convergence every downstream face is handled;
* `converged_excludes_downstream`: in every run whose steps are safe, the next hops set at
  convergence contain no downstream face.
-/

namespace Mars

open Outcome List

variable (info : PathDiscoveryInfo) (d : Face) (nexthops : List (Option FibNextHopEntry))

/-- The face is no longer valid, or it is given up when the pending freeze ends. -/
def Handled : Prop :=
  d ∈ info.validUpstreams → info.isPdFrozen = true ∧ d ∈ info.frozenRecoverFaces

/-- An Interest with the current probe index: a probed ingress face goes with the pending
freeze, if there is one, and the current tier is live if a freeze is pending or started. -/
def SameIndexSafe : Prop :=
  (info.isPdFrozen = true → d ∈ info.probedUpstreams → d ∈ info.frozenRecoverFaces)
    ∧ (d ∈ info.probedUpstreams → isCurrentTierAllInvalid info = false)
    ∧ (info.isPdFrozen = true → d ∉ info.probedUpstreams →
      ∃ hop ∈ info.tierList.getD info.currentTier [],
        hop.nexthop ≠ d ∧ hop.nexthop ∈ info.validUpstreams)

/-- The nexthops that a refresh puts into the tier after the current one. -/
def nextTierHops : List HopSnapshot :=
  (snapshotNexthops nexthops).filter fun hop =>
    Grouping.rank ((snapshotNexthops nexthops).map (·.cost)) hop.cost = info.currentTier + 1

/-- The tier after the current one, if there is one, has a valid face other than `d`. -/
def NextTierLive : Prop :=
  (snapshotNexthops nexthops = [] → info.currentTier + 1 < info.waitList.length →
      ∃ hop ∈ info.tierList.getD (info.currentTier + 1) [],
        hop.nexthop ≠ d ∧ hop.nexthop ∈ info.validUpstreams)
    ∧ (nextTierHops info nexthops ≠ [] → ∃ hop ∈ nextTierHops info nexthops,
      hop.nexthop ≠ d ∧ hop.nexthop ∈ info.validUpstreams)

/-- An Interest with a higher probe index: its nexthops do not list a valid ingress face
that is not handled, and the next tier is live if a freeze is pending. -/
def AdvanceSafe : Prop :=
  (snapshotNexthops nexthops = [] ∨ d ∈ latestFaces nexthops → Handled info d)
    ∧ (info.isPdFrozen = true → NextTierLive info d nexthops)

/-- The condition on a relevant Interest from face `d`. -/
def InterestSafe (probeIdx : ℤ) (d : Face) (nexthops : List (Option FibNextHopEntry)) : Prop :=
  (info.isInvalidNode = true → Handled info d)
    ∧ (info.isInvalidNode = false → info.isInitialized = true →
      (probeIdx < info.probeIndex → Handled info d)
        ∧ (probeIdx = info.probeIndex → SameIndexSafe info d)
        ∧ (info.probeIndex < probeIdx → AdvanceSafe info d nexthops))

/-- The condition on a step at a prefix that has not converged: no downstream face is
passed over, and the node does not converge while a freeze is pending. -/
def DownstreamSafe (node : Str) (info : PathDiscoveryInfo) : PdInput → Prop
  | .interest srcNode probeIdx inFace nexthops =>
    ((snapshotNexthops nexthops).map (·.nexthop)).Nodup
      ∧ (isRelevant node info.prefixKey srcNode = true → info.isNodeConverged = false →
        InterestSafe info probeIdx inFace nexthops)
  | .nack _ nackReason _ =>
    nackReason = nackReasonNoRoute → info.isInvalidNode = false →
      info.isNodeConverged = false → info.isPdFrozen = true →
      isCurrentTierAllInvalid info = false
  | .data _ tierConverged _ _ =>
    tierConverged = true → info.isNodeConverged = false → info.isPdFrozen = true →
      ¬(info.convergedUpstreamTier = ∅ ∧ areHigherTiersEmpty info = true)

instance (info : PathDiscoveryInfo) (d : Face) : Decidable (Handled info d) :=
  inferInstanceAs (Decidable (_ → _ ∧ _))

instance (info : PathDiscoveryInfo) (d : Face) : Decidable (SameIndexSafe info d) :=
  inferInstanceAs (Decidable ((_ → _ → _) ∧ (_ → _) ∧ (_ → _ → _)))

instance (info : PathDiscoveryInfo) (d : Face) (nexthops : List (Option FibNextHopEntry)) :
    Decidable (NextTierLive info d nexthops) :=
  inferInstanceAs (Decidable ((_ → _ → _) ∧ (_ → _)))

instance (info : PathDiscoveryInfo) (d : Face) (nexthops : List (Option FibNextHopEntry)) :
    Decidable (AdvanceSafe info d nexthops) :=
  inferInstanceAs (Decidable ((_ → _) ∧ (_ → _)))

instance (info : PathDiscoveryInfo) (probeIdx : ℤ) (d : Face)
    (nexthops : List (Option FibNextHopEntry)) :
    Decidable (InterestSafe info probeIdx d nexthops) :=
  inferInstanceAs (Decidable ((_ → _) ∧ (_ → _ → (_ → _) ∧ (_ → _) ∧ (_ → _))))

instance (node : Str) (info : PathDiscoveryInfo) : ∀ i, Decidable (DownstreamSafe node info i)
  | .interest _ _ _ _ => inferInstanceAs (Decidable (_ ∧ (_ → _ → _)))
  | .nack _ _ _ => inferInstanceAs (Decidable (_ → _ → _ → _ → _))
  | .data _ _ _ _ => inferInstanceAs (Decidable (_ → _ → _ → _))

/-! ### Convergence -/

/-- Up to convergence every downstream face is handled. -/
structure Excluding (D : Face → Prop) (info : PathDiscoveryInfo) : Prop where
  handled : info.isNodeConverged = false → ∀ d, D d → Handled info d
  fresh : info.isInitialized = false →
    info.isPdFrozen = false ∧ (info.isInvalidNode = true ∨ ∀ d, ¬D d)

/-- The next hops set by `localNodeConverged` contain no downstream face. -/
def NoDownstream (D : Face → Prop) : PdAction → Prop
  | .localNodeConverged info => ∀ d, D d → d ∉ info.dtValidFaces
  | _ => True

variable {node key : Str} {D : Face → Prop} {info : PathDiscoveryInfo} {d : Face}

lemma noDownstream_of_isSend {a : PdAction} (h : a.IsSend) : NoDownstream D a := by
  cases a <;> first | exact h.elim | trivial

/-- The next hops set at convergence are the valid faces. -/
lemma mem_dtValidFaces_converge (h : SetsConsistent info) {f : Face} :
    f ∈ (converge info).dtValidFaces ↔ f ∈ info.validUpstreams := by
  change f ∈ flattenDtTierFaces (info.waitList.filter (· ≠ [])) ↔ _
  rw [flattenDtTierFaces, Grouping.mem_distinct, tierFaces_filter_ne_nil, h.mem_valid]

/-- Converging is safe when no downstream face is valid. -/
lemma excluding_localNodeConverged (hsets : SetsConsistent info)
    (hnone : info.isNodeConverged = false → ∀ d, D d → d ∉ info.validUpstreams)
    (hfresh : info.isInitialized = false →
      info.isPdFrozen = false ∧ (info.isInvalidNode = true ∨ ∀ d, ¬D d)) :
    (localNodeConverged info).Ensures (Excluding D) (Excluding D) (NoDownstream D) := by
  refine ensures_localNodeConverged (fun hconv => ?_) (fun _ => ?_) fun hconv d hd => ?_
  · exact ⟨fun hnot => absurd (hconv.symm.trans hnot) (by decide), hfresh⟩
  · exact ⟨fun hnot => Bool.noConfusion hnot, hfresh⟩
  · rw [mem_dtValidFaces_converge hsets]
    exact hnone hconv d hd

/-- Without a pending freeze no downstream face is valid. -/
lemma Excluding.notMem_valid (h : Excluding D info) (hconv : info.isNodeConverged = false)
    (hfrozen : info.isPdFrozen = false) (hd : D d) : d ∉ info.validUpstreams := by
  intro hval
  exact absurd (hfrozen.symm.trans (h.handled hconv d hd hval).1) (by decide)

/-- The test of the current tier is safe unless it makes a frozen prefix converge. -/
lemma Excluding.checkCurrentTier (h : Excluding D info) (hsets : SetsConsistent info)
    (hlive : info.isNodeConverged = false → info.isPdFrozen = true →
      isCurrentTierAllInvalid info = false) :
    (checkCurrentTier info).Ensures (Excluding D) (Excluding D) (NoDownstream D) := by
  refine ensures_checkCurrentTier (fun _ => h) (fun _ => trivial) fun hall => ?_
  refine excluding_localNodeConverged hsets.clearUpperTiers (fun hconv d hd hval => ?_) h.fresh
  cases hfrozen : info.isPdFrozen with
  | true => exact absurd ((hlive hconv hfrozen).symm.trans hall) (by decide)
  | false => exact h.notMem_valid hconv hfrozen hd (Finset.mem_sdiff.mp hval).1

/-! ### Giving up faces -/

lemma Handled.excludeFace (h : Handled info d) {face : Face} : Handled (excludeFace info face) d :=
  fun hval => h (Finset.mem_of_mem_erase hval)

lemma handled_excludeFace_self : Handled (excludeFace info d) d :=
  fun hval => absurd hval (Finset.notMem_erase d _)

lemma Excluding.excludeFace (h : Excluding D info) {face : Face} :
    Excluding D (excludeFace info face) where
  handled hconv d hd := (h.handled hconv d hd).excludeFace
  fresh := h.fresh

lemma Excluding.countOffFrozen (h : Excluding D info) {outFace : Face} :
    Excluding D (countOffFrozen info outFace) := by
  refine countOffFrozen_cases (fun _ => h) (fun _ _ _ => { h with }) fun hfrozen _ _ => ?_
  rw [thaw, foldl_excludeFace_eq]
  refine ⟨fun hconv d hd hval => ?_, fun hinit => ?_⟩
  · -- what the freeze was to give up is no longer valid
    obtain ⟨hval, hnot⟩ := Finset.mem_sdiff.mp hval
    exact absurd (h.handled hconv d hd hval).2 hnot
  · exact absurd (hfrozen.symm.trans (h.fresh hinit).1) (by decide)

/-! ### The Interest handler -/

section Interest

variable {d : Face} {probeIdx : ℤ} {nexthops : List (Option FibNextHopEntry)}

lemma allInvalid_eq_false {hop : HopSnapshot}
    (hhop : hop ∈ info.tierList.getD info.currentTier [])
    (hval : hop.nexthop ∈ info.validUpstreams) : isCurrentTierAllInvalid info = false := by
  rw [Bool.eq_false_iff]
  exact fun hall => notMem_valid_of_allInvalid hall hhop hval

/-- The faces downstream once an Interest from `d` has been received. -/
def Joined (D : Face → Prop) (d : Face) : Face → Prop := fun f => D f ∨ f = d

lemma Excluding.join (h : Excluding D info) (hd : info.isNodeConverged = false → Handled info d)
    (hfresh : info.isInitialized = true ∨ info.isPdFrozen = false ∧ info.isInvalidNode = true) :
    Excluding (Joined D d) info where
  handled hconv f hf := by
    rcases hf with hf | rfl
    · exact h.handled hconv f hf
    · exact hd hconv
  fresh hnot := by
    rcases hfresh with hinit | hinv
    · exact absurd (hinit.symm.trans hnot) (by decide)
    · exact ⟨hinv.1, Or.inl hinv.2⟩

/-- What the handler knows before it looks at the ingress face `d`. -/
structure Ready (key : Str) (D : Face → Prop) (d : Face) (info : PathDiscoveryInfo) : Prop where
  consistent : Consistent key info
  isInitialized : info.isInitialized = true
  unconverged : info.isNodeConverged = false
  excluding : Excluding D info
  safe : SameIndexSafe info d

/-- What the handler hands back: every downstream face is handled and the sets are
consistent. -/
def Screened (key : Str) (D : Face → Prop) (info : PathDiscoveryInfo) : Prop :=
  Excluding D info ∧ Consistent key info

/-- A freeze that is pending leaves the current tier live. -/
def FrozenLive (info : PathDiscoveryInfo) : Prop :=
  info.isPdFrozen = true → isCurrentTierAllInvalid info = false

lemma Ready.screenIngress (h : Ready key D d info) :
    (screenIngress info d).Ensures
      (fun s => (Excluding (Joined D d) s ∧ FrozenLive s) ∧ Consistent key s)
      (Screened key (Joined D d)) (NoDownstream (Joined D d)) := by
  obtain ⟨hpending, hlive, hother⟩ := h.safe
  refine Ensures.and (ensures_screenIngress (fun hprobed hfrozen => ?_)
    (fun tier hprobed hfrozen htier => ?_) (fun hprobed hlost => ?_) fun hprobed => ?_)
    (keeps_consistent.screenIngress h.consistent)
  · refine ⟨h.excluding.join (fun _ _ => ?_) (Or.inl h.isInitialized), fun _ => hlive hprobed⟩
    exact ⟨hfrozen, hpending hfrozen hprobed⟩
  · -- the tier of the face is frozen, and with it the face
    have hmem := (exists_of_tierOf htier).1
    refine ⟨⟨fun hconv f hf hval => ?_, fun hnot => ?_⟩, fun _ => hlive hprobed⟩
    · rcases hf with hf | rfl
      · exact absurd hval (h.excluding.notMem_valid hconv hfrozen hf)
      · exact ⟨rfl, Finset.mem_union_right _ (mem_toFinset.mpr hmem)⟩
    · exact absurd (h.isInitialized.symm.trans hnot) (by decide)
  · refine h.excluding.join (fun _ hval => ?_) (Or.inl h.isInitialized)
    exact absurd ((h.consistent.mem_valid d).mp hval) (notMem_of_tierOf_eq_none hlost)
  · refine ⟨(h.excluding.excludeFace).join (fun _ => handled_excludeFace_self)
      (Or.inl h.isInitialized), fun hfrozen => ?_⟩
    obtain ⟨hop, hhop, hne, hval⟩ := hother hfrozen hprobed
    exact allInvalid_eq_false hhop (Finset.mem_erase.mpr ⟨hne, hval⟩)

/-! The tiers after a higher probe index. -/

lemma Excluding.refresh (h : Excluding D info) (hconv : info.isNodeConverged = false)
    (hinit : info.isInitialized = true) :
    Excluding D (refreshPathDiscoverySnapshot info nexthops) := by
  by_cases hne : snapshotNexthops nexthops = []
  · rwa [refresh_of_nil hne]
  rw [refresh_eq hne]
  refine ⟨fun _ f hf hval => ?_, fun hnot => absurd (hinit.symm.trans hnot) (by decide)⟩
  obtain ⟨hval, hlisted⟩ := mem_sdiff_disappeared.mp hval
  obtain ⟨hfrozen, hrec⟩ := h.handled hconv f hf hval
  exact ⟨hfrozen, mem_sdiff_disappeared.mpr ⟨hrec, hlisted⟩⟩

/-- A face that a refresh keeps valid is handled after it. -/
lemma AdvanceSafe.handled_refresh (h : AdvanceSafe info d nexthops) :
    Handled (refreshPathDiscoverySnapshot info nexthops) d := by
  by_cases hne : snapshotNexthops nexthops = []
  · rw [refresh_of_nil hne]
    exact h.1 (Or.inl hne)
  rw [refresh_eq hne]
  intro hval
  obtain ⟨hval, hlisted⟩ := mem_sdiff_disappeared.mp hval
  obtain ⟨hfrozen, hrec⟩ := h.1 (Or.inr (hlisted hval)) hval
  exact ⟨hfrozen, mem_sdiff_disappeared.mpr ⟨hrec, hlisted⟩⟩

/-- The tier that is opened while a freeze is pending has a valid face besides `d`. -/
lemma AdvanceSafe.exists_live (h : AdvanceSafe info d nexthops)
    (hfrozen : info.isPdFrozen = true)
    (hleft : (refreshPathDiscoverySnapshot info nexthops).currentTier + 1
      < (refreshPathDiscoverySnapshot info nexthops).waitList.length) :
    ∃ hop ∈ (nextTier info probeIdx nexthops).tierList.getD
        (nextTier info probeIdx nexthops).currentTier [],
      hop.nexthop ≠ d ∧ hop.nexthop ∈ (nextTier info probeIdx nexthops).validUpstreams := by
  by_cases hne : snapshotNexthops nexthops = []
  · rw [refresh_of_nil hne] at hleft
    rw [nextTier, refresh_of_nil hne]
    exact (h.2 hfrozen).1 hne hleft
  rw [refresh_eq hne] at hleft
  rw [nextTier, refresh_eq hne]
  dsimp only at hleft ⊢
  have htier : min info.currentTier ((refreshedTiers info nexthops).length - 1)
      = info.currentTier := by omega
  rw [htier] at hleft ⊢
  -- there is a tier at the next index, so some nexthop has its rank
  have hsome : nextTierHops info nexthops ≠ [] := by
    rw [refreshedTiers, length_map] at hleft
    obtain ⟨hop, hhop⟩ := exists_mem_group hleft
    obtain ⟨hmem, hrank⟩ := mem_group_iff.mp hhop
    exact ne_nil_of_mem (mem_filter.mpr ⟨hmem, decide_eq_true hrank⟩)
  obtain ⟨hop, hhop, hned, hval⟩ := (h.2 hfrozen).2 hsome
  obtain ⟨hmem, hrank⟩ := mem_filter.mp hhop
  have hlisted : hop.nexthop ∈ latestFaces nexthops := mem_latestFaces.mpr ⟨hop, hmem, rfl⟩
  exact ⟨hop, mem_refreshedTiers.mpr ⟨hmem, hval, of_decide_eq_true hrank⟩, hned,
    mem_sdiff_disappeared.mpr ⟨hval, fun _ => hlisted⟩⟩

/-- Once the tier is probed, the ingress face and the tier are as they are with the current
probe index. -/
lemma ready_probeFaces (hcons : Consistent key info) (hinit : info.isInitialized = true)
    (hconv : info.isNodeConverged = false) (hexcl : Excluding D info) (hd : Handled info d)
    (hlive : info.isPdFrozen = true → ∃ hop ∈ info.tierList.getD info.currentTier [],
      hop.nexthop ≠ d ∧ hop.nexthop ∈ info.validUpstreams) :
    Ready key D d (probeFaces info info.currentTier) := by
  have hprobed := hcons.probeFaces hinit info.currentTier
  have hsafe : SameIndexSafe (probeFaces info info.currentTier) d := by
    have hval := hprobed.probed_valid
    rw [probeFaces_eq] at hval ⊢
    refine ⟨fun _ hmem => (hd (hval hconv d hmem)).2, fun hmem => ?_, fun hfrozen _ =>
      hlive hfrozen⟩
    obtain ⟨hop, hhop, -, hhval⟩ := hlive (hd (hval hconv d hmem)).1
    exact allInvalid_eq_false hhop hhval
  rw [probeFaces_eq] at hprobed hsafe ⊢
  exact ⟨hprobed, hinit, hconv, { hexcl with }, hsafe⟩

/-- What initialization hands on. -/
structure Prepared (key : Str) (D : Face → Prop) (d : Face) (probeIdx : ℤ)
    (nexthops : List (Option FibNextHopEntry)) (info : PathDiscoveryInfo) : Prop where
  consistent : Consistent key info
  isInitialized : info.isInitialized = true
  excluding : Excluding D info
  safe : info.isNodeConverged = false →
    (probeIdx < info.probeIndex → Handled info d)
      ∧ (probeIdx = info.probeIndex → SameIndexSafe info d)
      ∧ (info.probeIndex < probeIdx → AdvanceSafe info d nexthops)

lemma Prepared.advanceProbe (h : Prepared key D d probeIdx nexthops info)
    (hproducer : isProducerNode node key = false) (hconv : info.isNodeConverged = false)
    (hdist : ((snapshotNexthops nexthops).map (·.nexthop)).Nodup) :
    (advanceProbe node info probeIdx nexthops).Ensures (Ready key D d)
      (Screened key (Joined D d)) (NoDownstream (Joined D d)) := by
  obtain ⟨hold, hsame, hadvance⟩ := h.safe hconv
  have hcons := h.consistent.refresh hconv h.isInitialized hdist
  have hexcl : Excluding D (refreshPathDiscoverySnapshot info nexthops) :=
    h.excluding.refresh hconv h.isInitialized
  obtain ⟨-, hinit, hconv', hfrozen'⟩ := refresh_stage
  replace hinit := hinit.trans h.isInitialized
  refine ensures_advanceProbe (fun hidx _ => ?_) (fun hidx hleft => ?_) (fun hidx => ?_)
    fun hidx => ?_
  · exact ⟨hexcl.join (fun _ => (hadvance hidx).handled_refresh) (Or.inl hinit), hcons⟩
  · have hnext : Consistent key (nextTier info probeIdx nexthops) := { hcons with }
    refine ensures_probeTier (fun hshort => absurd hleft (not_lt.mpr hshort)) (fun _ _ => ?_)
      fun _ hprod => ?_
    · exact ready_probeFaces hnext hinit (hconv'.trans hconv) { hexcl with }
        (hadvance hidx).handled_refresh
        fun hfrozen => (hadvance hidx).exists_live (hfrozen'.symm.trans hfrozen) hleft
    · rw [hnext.prefixKey_eq, hproducer] at hprod
      cases hprod
  · exact ⟨h.consistent, h.isInitialized, hconv, h.excluding, hsame hidx⟩
  · exact ⟨h.excluding.join (fun _ => hold hidx) (Or.inl h.isInitialized), h.consistent⟩

lemma prepared_of_fresh (hcons : Consistent key info) (hinit : info.isInitialized = true)
    (hthawed : info.isPdFrozen = false) (hidx : info.probeIndex = probeIdx)
    (hnone : ∀ f, ¬D f) (hlive : d ∈ info.probedUpstreams → isCurrentTierAllInvalid info = false) :
    Prepared key D d probeIdx nexthops { info with probedSchedulerIndex := 0 } where
  consistent := { hcons with }
  isInitialized := hinit
  excluding := ⟨fun _ f hf => absurd hf (hnone f),
    fun hnot => absurd (hinit.symm.trans hnot) (by decide)⟩
  safe _ := by
    refine ⟨fun hlt => absurd hlt ?_, fun _ => ⟨fun hfrozen => ?_, hlive, fun hfrozen => ?_⟩,
      fun hlt => absurd hlt ?_⟩
    · exact hidx ▸ lt_irrefl _
    · exact absurd (hthawed.symm.trans hfrozen) (by decide)
    · exact absurd (hthawed.symm.trans hfrozen) (by decide)
    · exact hidx ▸ lt_irrefl _

/-- Initialization leaves the ingress face safe: no freeze is pending, and a face that is
probed is in the current tier. -/
lemma Screened.initializeDiscovery (h : Screened key D info)
    (hproducer : isProducerNode node key = false) (hinv : info.isInvalidNode = false)
    (hsafe : info.isNodeConverged = false → InterestSafe info probeIdx d nexthops)
    (hdist : ((snapshotNexthops nexthops).map (·.nexthop)).Nodup) :
    (initializeDiscovery node info probeIdx nexthops).Ensures
      (Prepared key D d probeIdx nexthops) (Screened key (Joined D d))
      (NoDownstream (Joined D d)) := by
  obtain ⟨hexcl, hcons⟩ := h
  refine ensures_initializeDiscovery
    (fun hinit => ⟨hcons, hinit, hexcl, fun hconv => (hsafe hconv).2 hinv hinit⟩) fun hinit => ?_
  obtain ⟨hthawed, hnone⟩ := hexcl.fresh hinit
  replace hnone := hnone.resolve_left (by simp [hinv])
  have hfirst := hcons.firstTiers hinit probeIdx hdist
  have hset := firstTiers_isInitialized info probeIdx nexthops
  have hempty : (firstTiers info probeIdx nexthops).probedUpstreams = [] :=
    (firstTiers_probedUpstreams ..).trans (hcons.fresh hinit)
  have hsame := sameStage_probeFaces (firstTiers info probeIdx nexthops)
    (firstTiers info probeIdx nexthops).currentTier
  refine ensures_probeTier (fun _ => ?_) (fun _ _ => ?_) fun _ hprod => ?_
  · refine prepared_of_fresh hfirst hset ((firstTiers_isPdFrozen ..).trans hthawed)
      (firstTiers_probeIndex ..) hnone fun hmem => ?_
    rw [hempty] at hmem
    cases hmem
  · refine prepared_of_fresh (hfirst.probeFaces hset _) (hsame.isInitialized.trans hset)
      (hsame.isPdFrozen.trans ((firstTiers_isPdFrozen ..).trans hthawed))
      (hsame.probeIndex.trans (firstTiers_probeIndex ..)) hnone fun hmem => ?_
    rw [probeFaces_eq] at hmem ⊢
    rw [hempty, Grouping.mem_addDistinct] at hmem
    obtain ⟨hop, hhop, rfl⟩ := mem_facesAt.mp (hmem.resolve_left not_mem_nil)
    exact allInvalid_eq_false (tiersAligned_firstTiers info probeIdx nexthops _ hop hhop)
      ((hfirst.mem_valid _).mpr (mem_tierFaces_of_getD hhop))
  · rw [hfirst.prefixKey_eq, hproducer] at hprod
    cases hprod

lemma Screened.interest (h : Screened key D info) (hproducer : isProducerNode node key = false)
    {srcNode : Str}
    (hdist : ((snapshotNexthops nexthops).map (·.nexthop)).Nodup)
    (hrel : isRelevant node info.prefixKey srcNode = true)
    (hsafe : info.isNodeConverged = false → InterestSafe info probeIdx d nexthops) :
    (pathDiscoveryInterest node info srcNode probeIdx d nexthops).Ensures
      (Screened key (Joined D d)) (Screened key (Joined D d)) (NoDownstream (Joined D d)) := by
  have hO : ∀ a : PdAction, a.IsSend → NoDownstream (Joined D d) a :=
    fun _ => noDownstream_of_isSend
  refine ensures_interest hO (fun hnot => absurd (hrel.symm.trans hnot) (by decide))
    (fun hinv => ?_) (fun _ hinv => h.initializeDiscovery hproducer hinv hsafe hdist)
    (Q := Screened key (Joined D d)) (fun s hs => ?_) fun s hs => ?_
  · refine ⟨h.1.join (fun hconv => (hsafe hconv).1 hinv) ?_, h.2⟩
    cases hinit : info.isInitialized with
    | true => exact Or.inl rfl
    | false => exact Or.inr ⟨(h.1.fresh hinit).1, hinv⟩
  · refine ensures_probePhase hO (fun hconv => ?_)
      (fun hconv => hs.advanceProbe hproducer hconv hdist) (fun s hs => hs.screenIngress)
      (fun s hs => (hs.1.1.checkCurrentTier hs.2.toSetsConsistent fun _ => hs.1.2).and
        hs.2.checkCurrentTier) (fun s hs => ?_) fun s hs _ => hs
    · exact ⟨hs.excluding.join (fun hnot => absurd (hconv.symm.trans hnot) (by decide))
        (Or.inl hs.isInitialized), hs.consistent⟩
    · exact ⟨⟨hs.1.handled, fun hnot => ⟨(hs.1.fresh hnot).1, Or.inl rfl⟩⟩, { hs.2 with }⟩
  · refine ensures_forwardProbe hO (fun _ => hs) fun idx outFace _ => ?_
    have hexcl : Excluding (Joined D d) { s with probedSchedulerIndex := idx } := { hs.1 with }
    have hcons : Consistent key { s with probedSchedulerIndex := idx } := { hs.2 with }
    exact ⟨hexcl.countOffFrozen, keeps_consistent.countOffFrozen hcons⟩

end Interest

/-! ### The other handlers -/

lemma Screened.irrelevant (h : Screened key D info) {srcNode : Str} {probeIdx : ℤ}
    {inFace : Face} {nexthops : List (Option FibNextHopEntry)}
    (hrel : isRelevant node info.prefixKey srcNode = false) :
    (pathDiscoveryInterest node info srcNode probeIdx inFace nexthops).Ensures
      (Screened key D) (Screened key D) (NoDownstream D) := by
  refine ensures_interest (P := fun _ => False) (Q := fun _ => False)
    (fun _ => noDownstream_of_isSend) (fun _ => ?_) (fun _ => h)
    (fun hnot => absurd (hrel.symm.trans hnot) (by decide)) (fun _ hs => hs.elim)
    fun _ hs => hs.elim
  exact ⟨⟨h.1.handled, fun hinit => ⟨(h.1.fresh hinit).1, Or.inl rfl⟩⟩, { h.2 with }⟩

lemma Screened.nack (h : Screened key D info) {inFace : Face} {nackReason : ℕ}
    {inRecords : List Face}
    (hsafe : DownstreamSafe node info (.nack inFace nackReason inRecords)) :
    (pathDiscoveryNack info inFace nackReason inRecords).Ensures (Screened key D)
      (Screened key D) (NoDownstream D) := by
  refine ensures_nack (P := Screened key D) (fun _ => noDownstream_of_isSend) h
    (fun hreason hinv => ?_) (fun s hs => ?_) fun s hs _ => hs
  · cases hfrozen : info.isPdFrozen with
    | true =>
      have hsame : excludeNacked info inFace = info := by rw [excludeNacked, if_pos hfrozen]
      rw [hsame]
      exact (h.1.checkCurrentTier h.2.toSetsConsistent fun hconv _ =>
        hsafe hreason hinv hconv hfrozen).and h.2.checkCurrentTier
    | false =>
      have hexclude : excludeNacked info inFace = excludeFace info inFace := by
        rw [excludeNacked, hfrozen]
        rfl
      rw [hexclude]
      have hcons := h.2.excludeFace inFace
      exact ((h.1.excludeFace).checkCurrentTier hcons.toSetsConsistent
        fun _ hnot => absurd (hfrozen.symm.trans hnot) (by decide)).and hcons.checkCurrentTier
  · exact ⟨⟨hs.1.handled, fun hinit => ⟨(hs.1.fresh hinit).1, Or.inl rfl⟩⟩, { hs.2 with }⟩

lemma Screened.data (h : Screened key D info) {inFace : Face}
    {tierConverged nodeConverged : Bool} {inRecords : List Face}
    (hsafe : DownstreamSafe node info (.data inFace tierConverged nodeConverged inRecords)) :
    (pathDiscoveryData node info inFace tierConverged nodeConverged inRecords).Ensures
      (Screened key D) (Screened key D) (NoDownstream D) := by
  have hcount : Excluding D (countOffTier info inFace)
      ∧ (countOffTier info inFace).validUpstreams = info.validUpstreams
      ∧ (countOffTier info inFace).isNodeConverged = info.isNodeConverged
      ∧ (info.isPdFrozen = true → countOffTier info inFace = info) := by
    unfold countOffTier
    split
    · exact ⟨h.1, rfl, rfl, fun _ => rfl⟩
    · rename_i hnot
      exact ⟨{ h.1 with }, rfl, rfl, fun hfrozen => absurd hfrozen hnot⟩
  obtain ⟨hexcl, hval, hconv', hsame⟩ := hcount
  have htier : (processTier info inFace tierConverged).Ensures (Excluding D) (Excluding D)
      (NoDownstream D) := by
    refine ensures_processTier (fun _ => h.1) (fun _ => hexcl) fun htrue hdone hhigher => ?_
    refine excluding_localNodeConverged (keeps_consistent.countOffTier h.2 inFace).toSetsConsistent
      (fun hconv d hd => ?_) hexcl.fresh
    rw [hval]
    rw [hconv'] at hconv
    cases hfrozen : info.isPdFrozen with
    | true =>
      rw [hsame hfrozen] at hdone hhigher
      exact absurd ⟨hdone, hhigher⟩ (hsafe htrue hconv hfrozen)
    | false => exact h.1.notMem_valid hconv hfrozen hd
  refine (ensures_data (R := Excluding D) (fun _ => noDownstream_of_isSend) htier
    fun s hs => ?_).and (keeps_consistent.data h.2 (fun _ hs face => hs.reportNode))
  unfold processNode
  split
  · exact { hs with }
  · exact hs

/-! ### Runs -/

/-- A relevant Interest of the prefix has been received on face `d`. -/
def IsDownstream (node key : Str) (is : List PdInput) (d : Face) : Prop :=
  ∃ srcNode probeIdx nexthops, .interest srcNode probeIdx d nexthops ∈ is
    ∧ isRelevant node key srcNode = true

/-- A relevant Interest is an earlier input, or the last one. -/
lemma IsDownstream.of_concat {is : List PdInput} {i : PdInput}
    (h : IsDownstream node key (is ++ [i]) d) :
    IsDownstream node key is d ∨ ∃ srcNode probeIdx nexthops,
      i = .interest srcNode probeIdx d nexthops ∧ isRelevant node key srcNode = true := by
  obtain ⟨srcNode, probeIdx, nexthops, hmem, hrel⟩ := h
  rcases mem_append.mp hmem with hmem | hmem
  · exact Or.inl ⟨srcNode, probeIdx, nexthops, hmem, hrel⟩
  · exact Or.inr ⟨srcNode, probeIdx, nexthops, (mem_singleton.mp hmem).symm, hrel⟩

lemma Screened.anti {D' : Face → Prop} (h : Screened key D info) (hD : ∀ d, D' d → D d) :
    Screened key D' info :=
  ⟨⟨fun hconv d hd => h.1.handled hconv d (hD d hd), fun hinit =>
    ⟨(h.1.fresh hinit).1, (h.1.fresh hinit).2.imp_right fun hnone d hd => hnone d (hD d hd)⟩⟩,
    h.2⟩

/-- What holds for some faces holds for fewer. -/
lemma ensures_anti {D' : Face → Prop} {r : Outcome PathDiscoveryInfo PdAction}
    (h : r.Ensures (Screened key D) (Screened key D) (NoDownstream D)) (hD : ∀ d, D' d → D d) :
    r.Ensures (Screened key D') (Screened key D') (NoDownstream D') := by
  refine h.mono (fun _ hs => hs.anti hD) (fun _ hs => hs.anti hD) fun a ha => ?_
  cases a with
  | localNodeConverged info => exact fun d hd => ha d (hD d hd)
  | _ => trivial

/-- **A safe step** keeps every downstream face handled, those of the step included. -/
lemma screened_step (hproducer : isProducerNode node key = false) {is : List PdInput}
    (h : Screened key (IsDownstream node key is) info) {i : PdInput}
    (hi : DownstreamSafe node info i) :
    (pdLocked node info i).Ensures (Screened key (IsDownstream node key (is ++ [i])))
      (Screened key (IsDownstream node key (is ++ [i])))
      (NoDownstream (IsDownstream node key (is ++ [i]))) := by
  cases i with
  | interest srcNode probeIdx inFace nexthops =>
    cases hrel : isRelevant node info.prefixKey srcNode with
    | true =>
      refine ensures_anti (h.interest hproducer hi.1 hrel (hi.2 hrel)) fun d hd => ?_
      rcases hd.of_concat with hd | ⟨_, _, _, ⟨⟩, -⟩
      exacts [Or.inl hd, Or.inr rfl]
    | false =>
      refine ensures_anti (h.irrelevant hrel) fun d hd => hd.of_concat.resolve_right ?_
      rintro ⟨_, _, _, ⟨⟩, hrel'⟩
      rw [h.2.prefixKey_eq] at hrel
      exact absurd (hrel.symm.trans hrel') (by decide)
  | nack inFace nackReason inRecords =>
    exact ensures_anti (h.nack hi) fun d hd =>
      hd.of_concat.resolve_right (by rintro ⟨_, _, _, ⟨⟩, -⟩)
  | data inFace tierConverged nodeConverged inRecords =>
    exact ensures_anti (h.data hi) fun d hd =>
      hd.of_concat.resolve_right (by rintro ⟨_, _, _, ⟨⟩, -⟩)

lemma screened_pdRun (hproducer : isProducerNode node key = false) {es : List PdEvent}
    (hes : GuardedRun node key (DownstreamSafe node) es) :
    Screened key (IsDownstream node key (inputsOf key es)) (pdRun node es key) := by
  rw [pdRun_apply]
  refine Steps.history_invariant
    (I := fun is info => Screened key (IsDownstream node key is) info) (fun is i his h => ?_) ?_ hes
  · exact (screened_step hproducer h (Steps.guarded_step his).2).state
  · refine ⟨?_, consistent_new⟩
    have hnone : ∀ d, ¬IsDownstream node key [] d := by
      rintro d ⟨src, idx, nhs, hmem, -⟩
      cases hmem
    exact ⟨fun _ d hd => absurd hd (hnone d), fun _ => ⟨rfl, Or.inr hnone⟩⟩

/-- The events contain a relevant Interest of the prefix from face `d`. -/
def ReceivedFrom (node key : Str) (es : List PdEvent) (d : Face) : Prop :=
  ∃ e ∈ es, ∃ srcNode probeIdx nexthops,
    e.input = some (key, .interest srcNode probeIdx d nexthops)
      ∧ isRelevant node key srcNode = true

lemma ReceivedFrom.isDownstream {es : List PdEvent} (h : ReceivedFrom node key es d) :
    IsDownstream node key (inputsOf key es) d := by
  obtain ⟨e, he, srcNode, probeIdx, nexthops, hinput, hrel⟩ := h
  refine ⟨srcNode, probeIdx, nexthops, mem_filterMap.mpr ⟨e, he, ?_⟩, hrel⟩
  rw [hinput, Option.bind_some, if_pos rfl]

/-- **The next hops of a converged prefix exclude its downstream faces** in every run whose
steps are safe: at a node that is not the producer node of the prefix, the faces that
`localNodeConverged` sets contain no face on which a relevant Interest of the prefix has
been received, the event at hand included. -/
theorem converged_excludes_downstream (node key : Str)
    (hproducer : isProducerNode node key = false) (es : List PdEvent) (e : PdEvent)
    (i : PdInput) (hi : e.input = some (key, i))
    (hes : GuardedRun node key (DownstreamSafe node) (es ++ [e])) :
    ∀ info, .localNodeConverged info ∈ (pdHandle node (pdRun node es) e).out →
      ∀ d, ReceivedFrom node key (es ++ [e]) d → d ∉ info.dtValidFaces := by
  intro info hconv d hd
  obtain ⟨hes, hlast⟩ := hes.last hi
  rw [pdHandle_out hi] at hconv
  have hstep := screened_step hproducer (screened_pdRun hproducer hes) hlast
  refine hstep.mem_out hconv d ?_
  rw [← inputsOf_concat hi]
  exact hd.isDownstream

/-- A run in which the tier of the downstream face `1` is frozen and thawed before the node
converges. -/
theorem converged_excludes_downstream_after_thaw :
    let es := [probe '0' 9 [(1, 10), (2, 11)], probe '1' 9 [(1, 10), (2, 11)],
      probe '1' 1 [(2, 11)], probe '1' 9 [(1, 10), (2, 11)]]
    let e := report 2 true false
    .localNodeConverged (pdRun conNode (es ++ [e]) ['p'])
        ∈ (pdHandle conNode (pdRun conNode es) e).out
      ∧ ReceivedFrom conNode ['p'] (es ++ [e]) 1
      ∧ 1 ∉ (pdRun conNode (es ++ [e]) ['p']).dtValidFaces := by
  intro es e
  have hfrom : ReceivedFrom conNode ['p'] (es ++ [e]) 1 :=
    ⟨probe '1' 1 [(2, 11)], by simp [es], _, _, _, rfl, by decide⟩
  have hout : .localNodeConverged (pdRun conNode (es ++ [e]) ['p'])
      ∈ (pdHandle conNode (pdRun conNode es) e).out := by decide
  exact ⟨hout, hfrom, converged_excludes_downstream conNode ['p'] (by decide) es e _ rfl
    (by decide) _ hout 1 hfrom⟩

/-- **A downstream face may become a next hop**: the first tier has reported, so only the
second one holds convergence up.  Face `1` then asks for the prefix and its tier is frozen;
face `5`, the second tier, asks and is given up; and the next report makes the node converge
before the freeze has ended. -/
theorem downstream_becomes_next_hop :
    let es := [probe '0' 9 [(1, 10), (3, 10), (4, 10), (5, 12)], report 1 true false,
      report 3 true false, report 4 true false, probe '0' 1 [(3, 10), (4, 10), (5, 12)],
      probe '0' 5 [(1, 10), (3, 10), (4, 10)]]
    let e := report 3 true false
    isProducerNode conNode ['p'] = false
      ∧ .localNodeConverged (pdRun conNode (es ++ [e]) ['p'])
        ∈ (pdHandle conNode (pdRun conNode es) e).out
      ∧ ReceivedFrom conNode ['p'] es 1
      ∧ 1 ∈ (pdRun conNode (es ++ [e]) ['p']).dtValidFaces := by
  refine ⟨by decide, by decide, ?_, by decide⟩
  exact ⟨probe '0' 1 [(3, 10), (4, 10), (5, 12)], by simp, _, _, _, rfl, by decide⟩

end Mars
