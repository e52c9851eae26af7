import Mars.PathDiscovery.Runs
import Mars.PathDiscovery.Tiers

/-!
One rule for each phase of the path-discovery handlers: what has to be shown for a
postcondition of the phase.  Proofs about the handlers go through these rules and do not
unfold the phases again.

A postcondition has a part `G` for the state handed on, a part `R` for the state returned
and a part `O` for the outputs; the packets sent are taken to meet `O`.
-/

namespace Mars

open Outcome List

/-- The action sends a packet. -/
def PdAction.IsSend : PdAction → Prop
  | .skipTier _ => False
  | .localNodeConverged _ => False
  | _ => True

variable {node : Str} {info : PathDiscoveryInfo} {inFace : Face} {probeIdx : ℤ}
  {nexthops : List (Option FibNextHopEntry)} {G R : PathDiscoveryInfo → Prop}
  {O : PdAction → Prop} {s : PathDiscoveryInfo}

/-! ### Convergence -/

lemma ensures_go_nil (h : G s) : (go s []).Ensures G R O :=
  ensures_go h fun _ ha => absurd ha not_mem_nil

lemma ensures_ret_nil (h : R s) : (ret s []).Ensures G R O :=
  ensures_ret h fun _ ha => absurd ha not_mem_nil

lemma ensures_localNodeConverged (hold : info.isNodeConverged = true → G info)
    (hnew : info.isNodeConverged = false → G (converge info))
    (hout : info.isNodeConverged = false → O (.localNodeConverged (converge info))) :
    (localNodeConverged info).Ensures G R O := by
  unfold localNodeConverged
  split
  · rename_i hconv
    exact ensures_go_nil (hold hconv)
  · rename_i hconv
    have hconv' : info.isNodeConverged = false := by simpa using hconv
    refine ensures_go (hnew hconv') fun a ha => ?_
    rw [mem_singleton.mp ha]
    exact hout hconv'

lemma ensures_checkCurrentTier (hkeep : isCurrentTierAllInvalid info = false → G info)
    (hout : isCurrentTierAllInvalid info = true → O (.skipTier info))
    (hskip : isCurrentTierAllInvalid info = true →
      (localNodeConverged (clearUpperTiers info)).Ensures G R O) :
    (checkCurrentTier info).Ensures G R O := by
  unfold checkCurrentTier
  split
  · rename_i hall
    refine Ensures.bind (G := fun s => s = clearUpperTiers info) (ensures_go rfl ?_) ?_
    · intro a ha
      rw [mem_singleton.mp ha]
      exact hout hall
    · rintro _ rfl
      exact hskip hall
  · rename_i hall
    exact ensures_go_nil (hkeep (by simpa using hall))

/-! ### Probing -/

lemma ensures_probeTier {tierIndex : ℕ} (hshort : info.waitList.length ≤ tierIndex → G info)
    (hprobed : tierIndex < info.waitList.length → isProducerNode node info.prefixKey = false →
      G (probeFaces info tierIndex))
    (hproducer : tierIndex < info.waitList.length →
      isProducerNode node info.prefixKey = true →
      (localNodeConverged (probeFaces info tierIndex)).Ensures G R O) :
    (probeTier node info tierIndex).Ensures G R O := by
  have hkey : (probeFaces info tierIndex).prefixKey = info.prefixKey :=
    congrArg (·.prefixKey) (probeFaces_eq info tierIndex)
  unfold probeTier
  split
  · rename_i hlen
    exact ensures_go_nil (hshort hlen)
  · rename_i hlen
    dsimp only
    rw [hkey]
    split
    · rename_i hprod
      exact hproducer (by omega) hprod
    · rename_i hprod
      exact ensures_go_nil (hprobed (by omega) (by simpa using hprod))

/-- What neither converging nor probing touches. -/
structure SameStage (info s : PathDiscoveryInfo) : Prop where
  prefixKey : s.prefixKey = info.prefixKey
  isInitialized : s.isInitialized = info.isInitialized
  probeIndex : s.probeIndex = info.probeIndex
  waitList : s.waitList = info.waitList
  currentTier : s.currentTier = info.currentTier
  validUpstreams : s.validUpstreams = info.validUpstreams
  isPdFrozen : s.isPdFrozen = info.isPdFrozen
  frozenFaces : s.frozenFaces = info.frozenFaces
  frozenRecoverFaces : s.frozenRecoverFaces = info.frozenRecoverFaces

lemma sameStage_converge : SameStage info (converge info) := by
  constructor <;> rfl

lemma sameStage_probeFaces (info : PathDiscoveryInfo) (tierIndex : ℕ) :
    SameStage info (probeFaces info tierIndex) := by
  rw [probeFaces_eq]
  constructor <;> rfl

lemma SameStage.trans {t : PathDiscoveryInfo} (h : SameStage info s) (h' : SameStage s t) :
    SameStage info t := by
  constructor
  · exact h'.prefixKey.trans h.prefixKey
  · exact h'.isInitialized.trans h.isInitialized
  · exact h'.probeIndex.trans h.probeIndex
  · exact h'.waitList.trans h.waitList
  · exact h'.currentTier.trans h.currentTier
  · exact h'.validUpstreams.trans h.validUpstreams
  · exact h'.isPdFrozen.trans h.isPdFrozen
  · exact h'.frozenFaces.trans h.frozenFaces
  · exact h'.frozenRecoverFaces.trans h.frozenRecoverFaces

lemma localNodeConverged_sameStage (h : SameStage info s) :
    (localNodeConverged s).Ensures (SameStage info) (fun _ => False) fun a => ¬a.IsSend :=
  ensures_localNodeConverged (fun _ => h) (fun _ => h.trans sameStage_converge)
    fun _ hsend => hsend

lemma probeTier_sameStage {tierIndex : ℕ} :
    (probeTier node info tierIndex).Ensures (SameStage info) (fun _ => False)
      fun a => ¬a.IsSend :=
  ensures_probeTier (fun _ => by constructor <;> rfl)
    (fun _ _ => sameStage_probeFaces info tierIndex) fun _ _ =>
    localNodeConverged_sameStage (sameStage_probeFaces info tierIndex)

/-- The state in which the discovery of a prefix probes its first tier. -/
def firstTiers (info : PathDiscoveryInfo) (probeIdx : ℤ)
    (nexthops : List (Option FibNextHopEntry)) : PathDiscoveryInfo :=
  beginDiscovery (tierGrouping { info with isInitialized := true, probeIndex := probeIdx }
    (snapshotNexthops nexthops))

section FirstTiers

variable (info : PathDiscoveryInfo) (probeIdx : ℤ) (nexthops : List (Option FibNextHopEntry))

lemma firstTiers_eq :
    firstTiers info probeIdx nexthops = { info with
      isInitialized := true
      probeIndex := probeIdx
      tierList := (groupHopSnapshotsByCost (snapshotNexthops nexthops)).1
      tierCostList := (groupHopSnapshotsByCost (snapshotNexthops nexthops)).2
      currentTier := 0
      waitList := (firstTiers info probeIdx nexthops).waitList
      validUpstreams := (firstTiers info probeIdx nexthops).validUpstreams
      convergedUpstreamNode := (firstTiers info probeIdx nexthops).convergedUpstreamNode } :=
  beginDiscovery_eq _

@[simp] lemma firstTiers_prefixKey :
    (firstTiers info probeIdx nexthops).prefixKey = info.prefixKey :=
  congrArg (·.prefixKey) (firstTiers_eq info probeIdx nexthops)

@[simp] lemma firstTiers_isInitialized : (firstTiers info probeIdx nexthops).isInitialized = true :=
  congrArg (·.isInitialized) (firstTiers_eq info probeIdx nexthops)

@[simp] lemma firstTiers_probeIndex : (firstTiers info probeIdx nexthops).probeIndex = probeIdx :=
  congrArg (·.probeIndex) (firstTiers_eq info probeIdx nexthops)

@[simp] lemma firstTiers_tierList :
    (firstTiers info probeIdx nexthops).tierList
      = (groupHopSnapshotsByCost (snapshotNexthops nexthops)).1 :=
  congrArg (·.tierList) (firstTiers_eq info probeIdx nexthops)

@[simp] lemma firstTiers_currentTier : (firstTiers info probeIdx nexthops).currentTier = 0 :=
  congrArg (·.currentTier) (firstTiers_eq info probeIdx nexthops)

@[simp] lemma firstTiers_probedUpstreams :
    (firstTiers info probeIdx nexthops).probedUpstreams = info.probedUpstreams :=
  congrArg (·.probedUpstreams) (firstTiers_eq info probeIdx nexthops)

@[simp] lemma firstTiers_isPdFrozen :
    (firstTiers info probeIdx nexthops).isPdFrozen = info.isPdFrozen :=
  congrArg (·.isPdFrozen) (firstTiers_eq info probeIdx nexthops)

@[simp] lemma firstTiers_frozenFaces :
    (firstTiers info probeIdx nexthops).frozenFaces = info.frozenFaces :=
  congrArg (·.frozenFaces) (firstTiers_eq info probeIdx nexthops)

@[simp] lemma firstTiers_frozenRecoverFaces :
    (firstTiers info probeIdx nexthops).frozenRecoverFaces = info.frozenRecoverFaces :=
  congrArg (·.frozenRecoverFaces) (firstTiers_eq info probeIdx nexthops)

lemma firstTiers_waitList_length :
    (firstTiers info probeIdx nexthops).waitList.length
      = (firstTiers info probeIdx nexthops).tierList.length := by
  rw [firstTiers_tierList]
  exact foldl_removeTier_length _

end FirstTiers

lemma ensures_initializeDiscovery (hold : info.isInitialized = true → G info)
    (hnew : info.isInitialized = false → (probeTier node (firstTiers info probeIdx nexthops)
        (firstTiers info probeIdx nexthops).currentTier).Ensures
          (fun s => G { s with probedSchedulerIndex := 0 }) R O) :
    (initializeDiscovery node info probeIdx nexthops).Ensures G R O := by
  unfold initializeDiscovery
  split
  · rename_i hinit
    exact ensures_go_nil (hold hinit)
  · rename_i hinit
    exact (hnew (by simpa using hinit)).bind fun s hs => ensures_go_nil hs

/-- The state in which a higher probe index probes its tier. -/
def nextTier (info : PathDiscoveryInfo) (probeIdx : ℤ)
    (nexthops : List (Option FibNextHopEntry)) : PathDiscoveryInfo :=
  let info := refreshPathDiscoverySnapshot info nexthops
  { info with probeIndex := probeIdx, currentTier := info.currentTier + 1 }

lemma ensures_advanceProbe
    (hend : info.probeIndex < probeIdx →
      (refreshPathDiscoverySnapshot info nexthops).waitList.length
        ≤ (refreshPathDiscoverySnapshot info nexthops).currentTier + 1 →
      R (refreshPathDiscoverySnapshot info nexthops))
    (hnext : info.probeIndex < probeIdx →
      (refreshPathDiscoverySnapshot info nexthops).currentTier + 1
        < (refreshPathDiscoverySnapshot info nexthops).waitList.length →
      (probeTier node (nextTier info probeIdx nexthops)
        (nextTier info probeIdx nexthops).currentTier).Ensures G R O)
    (hsame : probeIdx = info.probeIndex → G info) (hold : probeIdx < info.probeIndex → R info) :
    (advanceProbe node info probeIdx nexthops).Ensures G R O := by
  unfold advanceProbe
  split
  · rename_i hidx
    dsimp only
    split
    · rename_i hlen
      exact ensures_ret_nil (hend hidx hlen)
    · rename_i hlen
      exact hnext hidx (by omega)
  · rename_i hidx
    split
    · rename_i heq
      exact ensures_go_nil (hsame heq)
    · rename_i hne
      exact ensures_ret_nil (hold (by omega))

/-! ### The end of the Interest handler -/

/-- The tier of a face is a tier of the wait list that holds the face. -/
lemma exists_of_tierOf {waitList : List (List HopSnapshot)} {face : Face}
    {tier : List HopSnapshot} (h : tierOf waitList face = some tier) :
    face ∈ tier.map (·.nexthop) ∧ ∃ i, waitList.getD i [] = tier := by
  unfold tierOf at h
  refine ⟨?_, ?_⟩
  · have hany := find?_some h
    obtain ⟨hop, hhop, heq⟩ := any_eq_true.mp hany
    exact mem_map.mpr ⟨hop, hhop, of_decide_eq_true heq⟩
  · obtain ⟨i, hi, rfl⟩ := getElem_of_mem (mem_of_find?_eq_some h)
    exact ⟨i, getD_eq_getElem _ _ hi⟩

lemma notMem_of_tierOf_eq_none {waitList : List (List HopSnapshot)} {face : Face}
    (h : tierOf waitList face = none) : face ∉ tierFaces waitList := by
  intro hface
  obtain ⟨tier, htier, hop, hhop, rfl⟩ := mem_tierFaces.mp hface
  refine find?_eq_none.mp h tier htier ?_
  exact any_eq_true.mpr ⟨hop, hhop, decide_eq_true rfl⟩

lemma ensures_screenIngress
    (hpending : inFace ∈ info.probedUpstreams → info.isPdFrozen = true → G info)
    (hfreeze : ∀ tier, inFace ∈ info.probedUpstreams → info.isPdFrozen = false →
      tierOf info.waitList inFace = some tier → G (freezeTier info tier))
    (hlost : inFace ∈ info.probedUpstreams → tierOf info.waitList inFace = none → R info)
    (hexclude : inFace ∉ info.probedUpstreams → G (excludeFace info inFace)) :
    (screenIngress info inFace).Ensures G R O := by
  unfold screenIngress
  split
  · rename_i hprobed
    cases htier : tierOf info.waitList inFace with
    | none => exact ensures_ret_nil (hlost hprobed htier)
    | some tier =>
      refine ensures_go_nil ?_
      split
      · rename_i hfrozen
        exact hpending hprobed hfrozen
      · rename_i hfrozen
        exact hfreeze tier hprobed (by simpa using hfrozen) htier
  · rename_i hprobed
    exact ensures_go_nil (hexclude hprobed)

/-- The state after a frozen face has been probed. -/
def countedOff (info : PathDiscoveryInfo) (outFace : Face) : PathDiscoveryInfo :=
  { info with frozenFaces := info.frozenFaces.erase outFace }

lemma countOffFrozen_cases {P : PathDiscoveryInfo → Prop} {outFace : Face}
    (hkeep : ¬(info.isPdFrozen = true ∧ outFace ∈ info.frozenFaces) → P info)
    (hcount : info.isPdFrozen = true → outFace ∈ info.frozenFaces →
      info.frozenFaces.erase outFace ≠ ∅ → P (countedOff info outFace))
    (hlast : info.isPdFrozen = true → outFace ∈ info.frozenFaces →
      info.frozenFaces.erase outFace = ∅ → P (thaw (countedOff info outFace))) :
    P (countOffFrozen info outFace) := by
  unfold countOffFrozen
  split
  · rename_i hfrozen
    dsimp only
    split
    · rename_i hempty
      exact hlast hfrozen.1 hfrozen.2 hempty
    · rename_i hne
      exact hcount hfrozen.1 hfrozen.2 hne
  · rename_i hfrozen
    exact hkeep hfrozen

lemma ensures_forwardProbe (hO : ∀ a, a.IsSend → O a) (hnone : info.probedUpstreams = [] → R info)
    (hsend : ∀ idx, ∀ outFace ∈ info.probedUpstreams,
      G (countOffFrozen { info with probedSchedulerIndex := idx } outFace)) :
    (forwardProbe info inFace).Ensures G R O := by
  unfold forwardProbe
  split
  · rename_i hnil
    exact ensures_ret_nil (hnone hnil)
  · rename_i hne
    have hpos := length_pos_iff.mpr hne
    refine ensures_go (hsend _ _ ?_) fun a ha => ?_
    · rw [getD_eq_getElem _ _ (by split <;> omega)]
      exact getElem_mem _
    · rw [mem_singleton.mp ha]
      exact hO _ trivial

/-! ### The handlers -/

section Handlers

variable {P Q T : PathDiscoveryInfo → Prop}

section

variable (hO : ∀ a, a.IsSend → O a)
include hO

lemma ensures_probePhase
    (hconverged : info.isNodeConverged = true → G info)
    (hadvance : info.isNodeConverged = false →
      (advanceProbe node info probeIdx nexthops).Ensures P R O)
    (hingress : ∀ s, P s → (screenIngress s inFace).Ensures Q R O)
    (htier : ∀ s, Q s → (checkCurrentTier s).Ensures T R O)
    (hnone : ∀ s, T s → R { s with isInvalidNode := true })
    (hleft : ∀ s, T s → s.validUpstreams ≠ ∅ → G s) :
    (probePhase node info probeIdx inFace nexthops).Ensures G R O := by
  unfold probePhase
  split
  · rename_i hconv
    exact ensures_go_nil (hconverged hconv)
  rename_i hconv
  refine (hadvance (by simpa using hconv)).bind fun s hs => ?_
  refine (hingress s hs).bind fun s hs => ?_
  refine (htier s hs).bind fun s hs => ?_
  unfold checkValidLeft
  split
  · refine ensures_ret (hnone s hs) fun a ha => ?_
    rw [mem_singleton.mp ha]
    exact hO _ trivial
  · rename_i hvalid
    exact ensures_go_nil (hleft s hs hvalid)

lemma ensures_interest {srcNode : Str}
    (hirrelevant : isRelevant node info.prefixKey srcNode = false →
      R { info with isInvalidNode := true })
    (hinvalid : info.isInvalidNode = true → R info)
    (hinit : isRelevant node info.prefixKey srcNode = true → info.isInvalidNode = false →
      (initializeDiscovery node info probeIdx nexthops).Ensures P R O)
    (hprobe : ∀ s, P s → (probePhase node s probeIdx inFace nexthops).Ensures Q R O)
    (hsend : ∀ s, Q s → (forwardProbe s inFace).Ensures G R O) :
    (pathDiscoveryInterest node info srcNode probeIdx inFace nexthops).Ensures G R O := by
  unfold pathDiscoveryInterest screenRelevance
  have hnack : ∀ a ∈ [PdAction.sendNack inFace inFace nackReasonNoRoute], O a := by
    intro a ha
    rw [mem_singleton.mp ha]
    exact hO _ trivial
  cases hrel : isRelevant node info.prefixKey srcNode with
  | false => exact ensures_ret (hirrelevant hrel) hnack
  | true =>
    cases hinv : info.isInvalidNode with
    | true => exact ensures_ret (hinvalid hinv) hnack
    | false =>
      exact (hinit hrel hinv).bind fun s hs => (hprobe s hs).bind hsend

lemma ensures_nack {nackReason : ℕ} {inRecords : List Face}
    (hother : R info)
    (htier : nackReason = nackReasonNoRoute → info.isInvalidNode = false →
      (checkCurrentTier (excludeNacked info inFace)).Ensures P R O)
    (hnone : ∀ s, P s → R { s with isInvalidNode := true })
    (hleft : ∀ s, P s → s.validUpstreams ≠ ∅ → R s) :
    (pathDiscoveryNack info inFace nackReason inRecords).Ensures G R O := by
  have hforward : ∀ reason, ∀ a ∈ forwardNackDefault inRecords inFace reason, O a := by
    intro reason a ha
    obtain ⟨face, -, rfl⟩ := mem_map.mp ha
    exact hO _ trivial
  unfold pathDiscoveryNack
  split
  · rename_i hreason
    split
    · exact ensures_ret hother (hforward _)
    · rename_i hinv
      refine (htier hreason (by simpa using hinv)).bind fun s hs => ?_
      split
      · exact ensures_ret (hnone s hs) (hforward _)
      · rename_i hvalid
        exact ensures_ret (hleft s hs hvalid) (hforward _)
  · split
    · exact ensures_ret hother (hforward _)
    · exact ensures_ret_nil hother

omit hO in
lemma ensures_processTier {tierConverged : Bool} (hother : tierConverged = false → G info)
    (hwait : tierConverged = true → G (countOffTier info inFace))
    (hconverge : tierConverged = true → (countOffTier info inFace).convergedUpstreamTier = ∅ →
      areHigherTiersEmpty (countOffTier info inFace) = true →
      (localNodeConverged (countOffTier info inFace)).Ensures G R O) :
    (processTier info inFace tierConverged).Ensures G R O := by
  unfold processTier
  split
  · rename_i htier
    unfold reportTier
    dsimp only
    split
    · rename_i hdone
      exact hconverge htier hdone.1 hdone.2
    · exact ensures_go_nil (hwait htier)
  · rename_i htier
    exact ensures_go_nil (hother (by simpa using htier))

lemma ensures_data {tierConverged nodeConverged : Bool} {inRecords : List Face}
    (htier : (processTier info inFace tierConverged).Ensures P R O)
    (hnode : ∀ s, P s → R (processNode s inFace nodeConverged)) :
    (pathDiscoveryData node info inFace tierConverged nodeConverged inRecords).Ensures G R O := by
  unfold pathDiscoveryData
  refine htier.bind fun s hs => ensures_ret (hnode s hs) fun a ha => ?_
  obtain ⟨face, -, rfl⟩ := mem_map.mp ha
  exact hO _ trivial

end

end Handlers

/-! ### Invariants -/

/-- A property that does not read the marks of a freeze, the mark of an invalid node and the place
in the round of probed faces, and that is kept where a face is given up or counted off and where
the node converges. -/
structure PdKeeps (I : PathDiscoveryInfo → Prop) : Prop where
  marks : ∀ {s}, I s → ∀ invalid idx frozen faces recover, I { s with
    isInvalidNode := invalid
    probedSchedulerIndex := idx
    isPdFrozen := frozen
    frozenFaces := faces
    frozenRecoverFaces := recover }
  exclude : ∀ {s}, I s → ∀ face, I (excludeFace s face)
  countTier : ∀ {s}, I s → ∀ face, I { s with
    convergedUpstreamTier := s.convergedUpstreamTier.erase face }
  converge : ∀ {s}, I s → (localNodeConverged s).Ensures I I fun _ => True
  checkTier : ∀ {s}, I s → (checkCurrentTier s).Ensures I I fun _ => True

namespace PdKeeps

variable {I P : PathDiscoveryInfo → Prop} (k : PdKeeps I) (h : I info)
include k

lemma invalid (hs : I s) : I { s with isInvalidNode := true } :=
  k.marks hs true s.probedSchedulerIndex s.isPdFrozen s.frozenFaces s.frozenRecoverFaces

lemma foldl_excludeFace (hs : I s) {faces : Multiset Face} :
    I (faces.foldl Mars.excludeFace s) := by
  induction faces using Multiset.induction_on generalizing s with
  | empty => simpa using hs
  | cons face faces ih =>
    rw [Multiset.foldl_cons]
    exact ih (k.exclude hs face)

include h

lemma countOffFrozen {outFace : Face} : I (countOffFrozen info outFace) := by
  have hmarks := fun s (hs : I s) => k.marks hs s.isInvalidNode s.probedSchedulerIndex
  refine countOffFrozen_cases (fun _ => h) (fun _ _ _ => hmarks _ h _ _ _) fun _ _ _ => ?_
  exact hmarks _ (k.foldl_excludeFace (hmarks _ h false _ _)) _ _ _

lemma screenIngress : (screenIngress info inFace).Ensures I I fun _ => True :=
  ensures_screenIngress (fun _ _ => h) (fun _ _ _ _ => k.marks h _ _ _ _ _) (fun _ _ => h)
    fun _ => k.exclude h inFace

/-- The Interest handler keeps `I` if its first two phases do. -/
lemma interest {srcNode : Str}
    (hinit : isRelevant node info.prefixKey srcNode = true → info.isInvalidNode = false →
      (initializeDiscovery node info probeIdx nexthops).Ensures P I fun _ => True)
    (hP : ∀ s, P s → I s)
    (hadvance : ∀ s, P s → s.isNodeConverged = false →
      (advanceProbe node s probeIdx nexthops).Ensures I I fun _ => True) :
    (pathDiscoveryInterest node info srcNode probeIdx inFace nexthops).Ensures I I
      fun _ => True := by
  refine ensures_interest (fun _ _ => trivial) (fun _ => k.invalid h) (fun _ => h) hinit
    (Q := I) (fun s hs => ?_) fun s hs => ?_
  · exact ensures_probePhase (fun _ _ => trivial) (fun _ => hP s hs) (hadvance s hs)
      (fun s hs => k.screenIngress hs) (fun s hs => k.checkTier hs)
      (fun s hs => k.invalid hs) fun s hs _ => hs
  · refine ensures_forwardProbe (fun _ _ => trivial) (fun _ => hs) fun idx outFace _ => ?_
    exact k.countOffFrozen (k.marks hs s.isInvalidNode idx s.isPdFrozen s.frozenFaces
      s.frozenRecoverFaces)

lemma nack {nackReason : ℕ} {inRecords : List Face} :
    (pathDiscoveryNack info inFace nackReason inRecords).Ensures I I fun _ => True := by
  have hexclude : I (excludeNacked info inFace) := by
    unfold excludeNacked
    split
    · exact h
    · exact k.exclude h inFace
  exact ensures_nack (fun _ _ => trivial) h (fun _ _ => k.checkTier hexclude)
    (fun s hs => k.invalid hs) fun s hs _ => hs

lemma countOffTier (inFace : Face) : I (countOffTier info inFace) := by
  unfold Mars.countOffTier
  split
  · exact h
  · exact k.countTier h inFace

lemma processTier (inFace : Face) (tierConverged : Bool) :
    (processTier info inFace tierConverged).Ensures I I fun _ => True := by
  have hcount := k.countOffTier h inFace
  exact ensures_processTier (fun _ => h) (fun _ => hcount) fun _ _ _ => k.converge hcount

/-- So does the Data handler, if its last phase does. -/
lemma data (hnode : ∀ s, I s → ∀ face, I (reportNode s face)) {tierConverged nodeConverged : Bool}
    {inRecords : List Face} :
    (pathDiscoveryData node info inFace tierConverged nodeConverged inRecords).Ensures I I
      fun _ => True := by
  refine ensures_data (fun _ _ => trivial) (k.processTier h inFace tierConverged) fun s hs => ?_
  unfold processNode
  split
  · exact hnode s hs inFace
  · exact hs

/-- **Every handler keeps `I`**, if the Interest handler and the last phase of the Data handler
do. -/
theorem pdLocked (hnode : ∀ s, I s → ∀ face, I (reportNode s face)) {i : PdInput}
    (hinterest : ∀ srcNode probeIdx inFace nexthops,
      i = .interest srcNode probeIdx inFace nexthops →
      (pathDiscoveryInterest node info srcNode probeIdx inFace nexthops).Ensures I I
        fun _ => True) : I (pdLocked node info i).state := by
  cases i with
  | interest srcNode probeIdx inFace nexthops => exact (hinterest _ _ _ _ rfl).state
  | nack inFace nackReason inRecords => exact (k.nack h).state
  | data inFace tierConverged nodeConverged inRecords =>
    exact (k.data h hnode).state

end PdKeeps

end Mars
