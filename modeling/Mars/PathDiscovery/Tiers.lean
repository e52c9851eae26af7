import Mathlib.Data.Finset.Lattice.Lemmas
import Mathlib.Data.List.GetD
import Mars.PathDiscovery.Info

/-!
Facts about tiers: which faces a list of tiers holds (`tierFaces`), how the edits of
the wait list change them, and what `groupHopSnapshotsByCost` returns.

* `tierFaces_filter`, `mem_tierFaces_set`, `tierFaces_clear`: the three kinds of
  edits, deletion of faces, of one tier and of the upper tiers;
* `perm_tierFaces_group`: the tiers of a hop list hold its faces, each as often;
* `mem_group_iff`: the tier of a hop is the rank of its cost;
* `foldl_excludeFace_eq`, `refresh_eq`: what the loops over sets of faces and the refresh
  of the snapshot leave, field by field.
-/

namespace Mars

open List Grouping Finset

open Grouping (addDistinct distinct classes rank)

/-! ### The faces of a list of tiers -/

@[simp] lemma tierFaces_nil : tierFaces [] = [] := rfl

@[simp] lemma tierFaces_cons (tier : List HopSnapshot) (tiers : List (List HopSnapshot)) :
    tierFaces (tier :: tiers) = tier.map (·.nexthop) ++ tierFaces tiers := by
  simp [tierFaces]

@[simp] lemma tierFaces_append {tiers tiers' : List (List HopSnapshot)} :
    tierFaces (tiers ++ tiers') = tierFaces tiers ++ tierFaces tiers' := by
  simp [tierFaces]

variable {tiers : List (List HopSnapshot)} {f : Face} {faces : Finset Face}

lemma mem_tierFaces : f ∈ tierFaces tiers ↔ ∃ tier ∈ tiers, ∃ hop ∈ tier, hop.nexthop = f := by
  simp only [tierFaces, List.mem_map, mem_flatten]
  constructor
  · rintro ⟨hop, ⟨tier, ht, hh⟩, rfl⟩
    exact ⟨tier, ht, hop, hh, rfl⟩
  · rintro ⟨tier, ht, hop, hh, rfl⟩
    exact ⟨hop, ⟨tier, ht, hh⟩, rfl⟩

/-- A face is in some tier of the list exactly if it is in the tier at some index. -/
lemma mem_tierFaces_getD : f ∈ tierFaces tiers ↔ ∃ i, ∃ hop ∈ tiers.getD i [], hop.nexthop = f := by
  rw [mem_tierFaces]
  constructor
  · rintro ⟨tier, ht, hop, hh, rfl⟩
    obtain ⟨i, hi, rfl⟩ := getElem_of_mem ht
    exact ⟨i, hop, (getD_eq_getElem _ _ hi).symm ▸ hh, rfl⟩
  · rintro ⟨i, hop, hh, rfl⟩
    by_cases hi : i < tiers.length
    · rw [getD_eq_getElem _ _ hi] at hh
      exact ⟨tiers[i], getElem_mem hi, hop, hh, rfl⟩
    · rw [getD_eq_default _ _ (by omega)] at hh
      simp at hh

variable {i : ℕ} {hop : HopSnapshot}

lemma mem_tierFaces_of_getD (h : hop ∈ tiers.getD i []) : hop.nexthop ∈ tierFaces tiers :=
  mem_tierFaces_getD.mpr ⟨i, hop, h, rfl⟩

/-! ### Edits of the wait list -/

/-- Deleting hops by face from every tier deletes them from the faces. -/
lemma tierFaces_filter (p : Face → Bool) (tiers : List (List HopSnapshot)) :
    tierFaces (tiers.map fun tier => tier.filter fun hop => p hop.nexthop)
      = (tierFaces tiers).filter p := by
  induction tiers with
  | nil => rfl
  | cons tier tiers ih =>
    rw [List.map_cons, tierFaces_cons, tierFaces_cons, filter_append, ih, filter_map]
    rfl

lemma getD_map_filter {p : HopSnapshot → Bool} {tiers : List (List HopSnapshot)} :
    (tiers.map fun tier => tier.filter p).getD i [] = (tiers.getD i []).filter p := by
  rw [getD_eq_getElem?_getD, getElem?_map, getD_eq_getElem?_getD]
  cases tiers[i]? <;> rfl

/-- Splitting a list of tiers at an index that it has. -/
lemma tierFaces_split (tiers : List (List HopSnapshot)) (i : ℕ) :
    (tierFaces tiers).Perm ((tiers.getD i []).map (·.nexthop) ++ tierFaces (tiers.set i [])) := by
  induction tiers generalizing i with
  | nil => simp
  | cons tier tiers ih =>
    cases i with
    | zero => simp
    | succ i =>
      have h1 := ih i
      simp only [tierFaces_cons, getD_cons_succ, set_cons_succ]
      refine (h1.append_left _).trans ?_
      rw [← append_assoc, ← append_assoc]
      exact perm_append_comm.append_right _

section

variable (hnd : (tierFaces tiers).Nodup)
include hnd

/-- Clearing one tier of tiers without a repeated face deletes exactly its faces. -/
lemma mem_tierFaces_set :
    f ∈ tierFaces (tiers.set i [])
      ↔ f ∈ tierFaces tiers ∧ f ∉ (tiers.getD i []).map (·.nexthop) := by
  have hperm := tierFaces_split tiers i
  have hdisj := disjoint_of_nodup_append (hperm.nodup_iff.mp hnd)
  rw [hperm.mem_iff, mem_append]
  constructor
  · exact fun h => ⟨Or.inr h, fun h' => hdisj h' h⟩
  · exact fun h => h.1.resolve_left h.2

/-- Without a repeated face no two tiers have one in common. -/
lemma disjoint_tiers {j : ℕ} (hij : i ≠ j) {hop' : HopSnapshot}
    (h : hop ∈ tiers.getD i []) (h' : hop' ∈ tiers.getD j []) : hop.nexthop ≠ hop'.nexthop := by
  intro heq
  have hmem : hop'.nexthop ∈ tierFaces (tiers.set i []) := by
    refine mem_tierFaces_getD.mpr ⟨j, hop', ?_, rfl⟩
    rw [getD_eq_getElem?_getD] at h' ⊢
    rwa [getElem?_set_ne hij]
  refine ((mem_tierFaces_set hnd).mp hmem).2 ?_
  rw [← heq]
  exact mem_map_of_mem h

lemma nodup_tierFaces_set : (tierFaces (tiers.set i [])).Nodup :=
  (nodup_append.mp ((tierFaces_split tiers i).nodup_iff.mp hnd)).2.1

end

/-- Tiers that are all empty hold no face. -/
lemma tierFaces_map_nil {tiers : List (List HopSnapshot)} :
    tierFaces (tiers.map fun _ => ([] : List HopSnapshot)) = [] := by
  induction tiers with
  | nil => rfl
  | cons tier tiers ih => rw [List.map_cons, tierFaces_cons, ih]; rfl

lemma tierFaces_take_append_drop (n : ℕ) (tiers : List (List HopSnapshot)) :
    tierFaces (tiers.take n) ++ tierFaces (tiers.drop n) = tierFaces tiers := by
  rw [← tierFaces_append, take_append_drop]

/-- Clearing the tiers from `n` on leaves the faces of the lower ones. -/
lemma tierFaces_clear {n : ℕ} {tiers : List (List HopSnapshot)} :
    tierFaces (tiers.take n ++ (tiers.drop n).map fun _ => []) = tierFaces (tiers.take n) := by
  rw [tierFaces_append, tierFaces_map_nil, append_nil]

lemma mem_getD_of_mem_clear {n : ℕ}
    (h : hop ∈ (tiers.take n ++ (tiers.drop n).map fun _ => []).getD i []) :
    hop ∈ tiers.getD i [] := by
  induction tiers generalizing n i with
  | nil => simp at h
  | cons tier tiers ih =>
    cases n with
    | zero =>
      have hnone := mem_tierFaces_of_getD h
      rw [tierFaces_clear] at hnone
      cases hnone
    | succ n =>
      cases i with
      | zero => exact h
      | succ i => exact ih h

/-- Without a repeated face, the lower tiers hold the faces the upper ones do not. -/
lemma mem_tierFaces_take (hnd : (tierFaces tiers).Nodup) {n : ℕ} :
    f ∈ tierFaces (tiers.take n) ↔ f ∈ tierFaces tiers ∧ f ∉ tierFaces (tiers.drop n) := by
  rw [← tierFaces_take_append_drop n] at hnd
  have hdisj := disjoint_of_nodup_append hnd
  rw [← tierFaces_take_append_drop n tiers, mem_append]
  constructor
  · exact fun h => ⟨Or.inl h, fun h' => hdisj h h'⟩
  · exact fun h => h.1.resolve_right h.2

lemma mem_tierFaces_take_getD {n : ℕ} :
    f ∈ tierFaces (tiers.take n) ↔ ∃ i < n, ∃ hop ∈ tiers.getD i [], hop.nexthop = f := by
  have hget : ∀ i, (tiers.take n).getD i [] = if i < n then tiers.getD i [] else [] := by
    intro i
    rw [getD_eq_getElem?_getD, getElem?_take, getD_eq_getElem?_getD]
    split <;> rfl
  rw [mem_tierFaces_getD]
  constructor
  · rintro ⟨i, hop, hhop, rfl⟩
    rw [hget] at hhop
    split at hhop
    · rename_i hi
      exact ⟨i, hi, hop, hhop, rfl⟩
    · cases hhop
  · rintro ⟨i, hi, hop, hhop, rfl⟩
    refine ⟨i, hop, ?_, rfl⟩
    rwa [hget, if_pos hi]

/-- Dropping empty tiers drops no face. -/
lemma tierFaces_filter_ne_nil {tiers : List (List HopSnapshot)} :
    tierFaces (tiers.filter (· ≠ [])) = tierFaces tiers := by
  induction tiers with
  | nil => rfl
  | cons tier tiers ih =>
    by_cases h : tier = []
    · rw [List.filter_cons_of_neg (by simpa using h), ih, h]
      rfl
    · rw [List.filter_cons_of_pos (by simpa using h), tierFaces_cons, tierFaces_cons, ih]

/-! ### Grouping by cost -/

lemma group_costs_perm (hops : List HopSnapshot) :
    (groupHopSnapshotsByCost hops).2.Perm (distinct (hops.map (·.cost))) :=
  perm_insertionSort _ _

lemma group_costs_sorted {hops : List HopSnapshot} :
    (groupHopSnapshotsByCost hops).2.Pairwise (· ≤ ·) :=
  pairwise_insertionSort (· ≤ ·) _

@[simp] lemma group_length {hops : List HopSnapshot} :
    (groupHopSnapshotsByCost hops).1.length = (groupHopSnapshotsByCost hops).2.length := by
  simp [groupHopSnapshotsByCost]

/-- The tiers of a hop list hold its hops, each as often as the list does. -/
lemma perm_flatten_group (hops : List HopSnapshot) :
    (groupHopSnapshotsByCost hops).1.flatten.Perm hops := by
  have hcosts := group_costs_perm hops
  have hnd := hcosts.nodup_iff.mpr (nodup_distinct _)
  refine (perm_flatten_classes hnd).trans (Perm.of_eq ?_)
  refine filter_eq_self.mpr fun hop hhop => decide_eq_true ?_
  rw [hcosts.mem_iff, mem_distinct]
  exact mem_map_of_mem hhop

lemma perm_tierFaces_group {hops : List HopSnapshot} :
    (tierFaces (groupHopSnapshotsByCost hops).1).Perm (hops.map (·.nexthop)) :=
  (perm_flatten_group hops).map _

variable {hops : List HopSnapshot}

/-- The tier of a hop is the rank of its cost among the costs of the list. -/
lemma mem_group_iff :
    hop ∈ (groupHopSnapshotsByCost hops).1.getD i []
      ↔ hop ∈ hops ∧ rank (hops.map (·.cost)) hop.cost = i := by
  have hrank : ∀ {j k}, (groupHopSnapshotsByCost hops).2[j]? = some k →
      rank (hops.map (·.cost)) k = j :=
    Grouping.rank_of_getElem? (group_costs_perm hops) group_costs_sorted
  rw [show (groupHopSnapshotsByCost hops).1
    = classes (·.cost) (groupHopSnapshotsByCost hops).2 hops from rfl,
    Grouping.mem_getD_classes]
  constructor
  · rintro ⟨hmem, hget⟩
    exact ⟨hmem, hrank hget⟩
  · rintro ⟨hmem, rfl⟩
    refine ⟨hmem, ?_⟩
    have hcost : hop.cost ∈ (groupHopSnapshotsByCost hops).2 := by
      rw [(group_costs_perm hops).mem_iff, Grouping.mem_distinct]
      exact mem_map_of_mem hmem
    obtain ⟨j, hj, hget⟩ := getElem_of_mem hcost
    have hget' : (groupHopSnapshotsByCost hops).2[j]? = some hop.cost := by
      rw [getElem?_eq_getElem hj, hget]
    rw [hrank hget']
    exact hget'

/-- No tier of a hop list is empty. -/
lemma exists_mem_group (hi : i < (groupHopSnapshotsByCost hops).1.length) :
    ∃ hop, hop ∈ (groupHopSnapshotsByCost hops).1.getD i [] := by
  rw [group_length] at hi
  have hmem := getElem_mem hi
  rw [(group_costs_perm hops).mem_iff, mem_distinct] at hmem
  obtain ⟨hop, hhop, hcost⟩ := mem_map.mp hmem
  refine ⟨hop, mem_getD_classes.mpr ⟨hhop, ?_⟩⟩
  rw [hcost]
  exact getElem?_eq_getElem hi

/-- The hops of a tier have one cost. -/
lemma cost_eq_of_mem_group {hop' : HopSnapshot}
    (h : hop ∈ (groupHopSnapshotsByCost hops).1.getD i [])
    (h' : hop' ∈ (groupHopSnapshotsByCost hops).1.getD i []) : hop.cost = hop'.cost := by
  have h1 := (mem_getD_classes.mp h).2
  have h2 := (mem_getD_classes.mp h').2
  exact Option.some.inj (h1.symm.trans h2)

/-! ### Loops over sets of faces -/

lemma filter_erase_eq {l : List Face} (hnd : l.Nodup) {face : Face} :
    (l.erase face).filter (· ∉ faces) = l.filter (· ∉ insert face faces) := by
  rw [hnd.erase_eq_filter, List.filter_filter]
  refine List.filter_congr fun f _ => ?_
  rw [Bool.eq_iff_iff]
  simp [and_comm]

lemma erase_sdiff_eq {s : Finset Face} {face : Face} :
    s.erase face \ faces = s \ insert face faces := by
  rw [erase_sdiff_comm, sdiff_insert]

lemma map_filter_eq {tiers : List (List HopSnapshot)} {face : Face} :
    ((tiers.map fun tier => tier.filter (·.nexthop ≠ face)).map fun tier =>
        tier.filter (·.nexthop ∉ faces))
      = tiers.map fun tier => tier.filter (·.nexthop ∉ insert face faces) := by
  rw [List.map_map]
  refine List.map_congr_left fun tier _ => ?_
  rw [Function.comp_apply, List.filter_filter]
  refine List.filter_congr fun hop _ => ?_
  rw [Bool.eq_iff_iff]
  simp [and_comm]

instance : RightCommutative (List.erase : List Face → Face → List Face) where
  right_comm _ a b := erase_comm a b

lemma foldl_erase_eq {l : List Face} (hnd : l.Nodup) :
    faces.val.foldl List.erase l = l.filter (· ∉ faces) := by
  induction faces using Finset.induction_on generalizing l with
  | empty => simp
  | insert face faces hface ih =>
    rw [insert_val_of_notMem hface, Multiset.foldl_cons, ih (hnd.erase face), filter_erase_eq hnd]

variable (info : PathDiscoveryInfo)

/-- Giving up a set of faces one after the other. -/
lemma foldl_excludeFace_eq :
    faces.val.foldl excludeFace info = { info with
      validUpstreams := info.validUpstreams \ faces
      waitList := info.waitList.map fun tier => tier.filter (·.nexthop ∉ faces)
      convergedUpstreamTier := info.convergedUpstreamTier \ faces
      convergedUpstreamNode := info.convergedUpstreamNode \ faces
      probedUpstreams := faces.val.foldl List.erase info.probedUpstreams } := by
  induction faces using Finset.induction_on generalizing info with
  | empty => simp
  | insert face faces hface ih =>
    rw [insert_val_of_notMem hface, Multiset.foldl_cons, Multiset.foldl_cons, ih]
    simp only [excludeFace, removeFaceFromWaitList, removeFaceFromProbedUpstreams,
      erase_sdiff_eq, map_filter_eq]

/-- Dropping a set of disappeared faces one after the other. -/
lemma foldl_dropDisappearedFace_eq :
    faces.val.foldl dropDisappearedFace info = { info with
      validUpstreams := info.validUpstreams \ faces
      convergedUpstreamTier := info.convergedUpstreamTier \ faces
      convergedUpstreamNode := info.convergedUpstreamNode \ faces
      frozenFaces := info.frozenFaces \ faces
      frozenRecoverFaces := info.frozenRecoverFaces \ faces
      probedUpstreams := faces.val.foldl List.erase info.probedUpstreams } := by
  induction faces using Finset.induction_on generalizing info with
  | empty => simp
  | insert face faces hface ih =>
    rw [insert_val_of_notMem hface, Multiset.foldl_cons, Multiset.foldl_cons, ih]
    simp only [dropDisappearedFace, removeFaceFromProbedUpstreams, erase_sdiff_eq]

lemma foldl_probeFace_eq {tier : List HopSnapshot} :
    tier.foldl probeFace info = { info with
      probedUpstreams := addDistinct info.probedUpstreams (tier.map (·.nexthop))
      convergedUpstreamTier :=
        info.convergedUpstreamTier ∪ (tier.map (·.nexthop)).toFinset } := by
  induction tier generalizing info with
  | nil => simp
  | cons hop tier ih =>
    rw [foldl_cons, ih]
    simp only [probeFace, List.map_cons, Grouping.addDistinct_cons, toFinset_cons,
      Finset.insert_union, Finset.union_insert]

/-- The faces of the tier at an index. -/
def facesAt (tierIndex : ℕ) : List Face :=
  (info.waitList.getD tierIndex []).map (·.nexthop)

/-- Probing the faces of a tier one after the other. -/
lemma probeFaces_eq (tierIndex : ℕ) :
    probeFaces info tierIndex = { info with
      probedUpstreams := addDistinct info.probedUpstreams (facesAt info tierIndex)
      convergedUpstreamTier :=
        info.convergedUpstreamTier ∪ (facesAt info tierIndex).toFinset } :=
  foldl_probeFace_eq _

lemma mem_facesAt {info : PathDiscoveryInfo} {tierIndex : ℕ} :
    f ∈ facesAt info tierIndex
      ↔ ∃ hop ∈ info.waitList.getD tierIndex [], hop.nexthop = f :=
  mem_map

/-- Giving up tiers edits the wait list, the valid faces and the faces awaited for node
convergence only. -/
lemma foldl_removeTier_eq {is : List ℕ} :
    is.foldl removeTier info = { info with
      waitList := (is.foldl removeTier info).waitList
      validUpstreams := (is.foldl removeTier info).validUpstreams
      convergedUpstreamNode := (is.foldl removeTier info).convergedUpstreamNode } := by
  induction is generalizing info with
  | nil => rfl
  | cons i is ih => exact ih (removeTier info i)

lemma foldl_removeTier_length {is : List ℕ} :
    (is.foldl removeTier info).waitList.length = info.waitList.length := by
  induction is generalizing info with
  | nil => rfl
  | cons i is ih => exact (ih (removeTier info i)).trans length_set

/-- What the first steps of `StartPathDiscovery` leave alone. -/
lemma beginDiscovery_eq :
    beginDiscovery info = { info with
      currentTier := 0
      waitList := (beginDiscovery info).waitList
      validUpstreams := (beginDiscovery info).validUpstreams
      convergedUpstreamNode := (beginDiscovery info).convergedUpstreamNode } :=
  foldl_removeTier_eq _

/-! ### The refresh -/

section Refresh

variable {info : PathDiscoveryInfo} {nexthops : List (Option FibNextHopEntry)}

/-- The faces of the nexthops handed in. -/
def latestFaces (nexthops : List (Option FibNextHopEntry)) : Finset Face :=
  ((snapshotNexthops nexthops).map (·.nexthop)).toFinset

/-- The faces a refresh drops. -/
def disappeared (info : PathDiscoveryInfo) (nexthops : List (Option FibNextHopEntry)) :
    Finset Face :=
  info.validUpstreams.filter (· ∉ latestFaces nexthops)

/-- The tiers a refresh leaves. -/
def refreshedTiers (info : PathDiscoveryInfo) (nexthops : List (Option FibNextHopEntry)) :
    List (List HopSnapshot) :=
  (groupHopSnapshotsByCost (snapshotNexthops nexthops)).1.map fun tier =>
    tier.filter (·.nexthop ∈ info.validUpstreams \ disappeared info nexthops)

/-- The probed faces a refresh leaves. -/
def refreshedProbed (info : PathDiscoveryInfo) (nexthops : List (Option FibNextHopEntry)) :
    List Face :=
  filterProbed (latestFaces nexthops) (info.validUpstreams \ disappeared info nexthops)
    ((disappeared info nexthops).val.foldl List.erase info.probedUpstreams)

lemma mem_latestFaces :
    f ∈ latestFaces nexthops ↔ ∃ hop ∈ snapshotNexthops nexthops, hop.nexthop = f := by
  simp [latestFaces]

lemma keepCurrentTierInRange_eq :
    keepCurrentTierInRange info
      = { info with currentTier := min info.currentTier (info.waitList.length - 1) } := by
  unfold keepCurrentTierInRange
  split
  · rename_i h
    simp [h]
  · split
    · congr 1
      omega
    · rename_i h1 h2
      have h3 : min info.currentTier (info.waitList.length - 1) = info.currentTier := by omega
      rw [h3]

/-- **What a refresh leaves**, field by field. -/
lemma refresh_eq (hne : snapshotNexthops nexthops ≠ []) :
    refreshPathDiscoverySnapshot info nexthops = { info with
      tierList := refreshedTiers info nexthops
      waitList := refreshedTiers info nexthops
      tierCostList := (groupHopSnapshotsByCost (snapshotNexthops nexthops)).2
      currentTier := min info.currentTier ((refreshedTiers info nexthops).length - 1)
      validUpstreams := info.validUpstreams \ disappeared info nexthops
      convergedUpstreamTier := info.convergedUpstreamTier \ disappeared info nexthops
      convergedUpstreamNode := info.convergedUpstreamNode \ disappeared info nexthops
      frozenFaces := info.frozenFaces \ disappeared info nexthops
      frozenRecoverFaces := info.frozenRecoverFaces \ disappeared info nexthops
      probedUpstreams := refreshedProbed info nexthops
      probedSchedulerIndex :=
        if refreshedProbed info nexthops = []
            ∨ (refreshedProbed info nexthops).length ≤ info.probedSchedulerIndex then 0
        else info.probedSchedulerIndex } := by
  rw [refreshPathDiscoverySnapshot, if_neg hne, keepCurrentTierInRange_eq, dropDisappeared,
    foldl_dropDisappearedFace_eq]
  rfl

lemma refresh_of_nil (h : snapshotNexthops nexthops = []) :
    refreshPathDiscoverySnapshot info nexthops = info := by
  rw [refreshPathDiscoverySnapshot, if_pos h]

/-- What a refresh leaves alone. -/
lemma refresh_stage :
    (refreshPathDiscoverySnapshot info nexthops).prefixKey = info.prefixKey
      ∧ (refreshPathDiscoverySnapshot info nexthops).isInitialized = info.isInitialized
      ∧ (refreshPathDiscoverySnapshot info nexthops).isNodeConverged = info.isNodeConverged
      ∧ (refreshPathDiscoverySnapshot info nexthops).isPdFrozen = info.isPdFrozen := by
  by_cases hne : snapshotNexthops nexthops = []
  · rw [refresh_of_nil hne]
    exact ⟨rfl, rfl, rfl, rfl⟩
  · rw [refresh_eq hne]
    exact ⟨rfl, rfl, rfl, rfl⟩

lemma mem_sdiff_disappeared {s : Finset Face} :
    f ∈ s \ disappeared info nexthops
      ↔ f ∈ s ∧ (f ∈ info.validUpstreams → f ∈ latestFaces nexthops) := by
  simp [disappeared]

lemma mem_refreshedTiers :
    hop ∈ (refreshedTiers info nexthops).getD i []
      ↔ hop ∈ snapshotNexthops nexthops ∧ hop.nexthop ∈ info.validUpstreams
        ∧ rank ((snapshotNexthops nexthops).map (·.cost)) hop.cost = i := by
  rw [refreshedTiers, getD_map_filter, mem_filter, mem_group_iff, decide_eq_true_iff,
    mem_sdiff_disappeared]
  constructor
  · rintro ⟨⟨hmem, hrank⟩, hval, -⟩
    exact ⟨hmem, hval, hrank⟩
  · rintro ⟨hmem, hval, hrank⟩
    exact ⟨⟨hmem, hrank⟩, hval, fun _ => mem_latestFaces.mpr ⟨hop, hmem, rfl⟩⟩

lemma mem_tierFaces_refreshed :
    f ∈ tierFaces (refreshedTiers info nexthops)
      ↔ f ∈ info.validUpstreams ∧ f ∈ latestFaces nexthops := by
  rw [mem_tierFaces_getD, mem_latestFaces]
  constructor
  · rintro ⟨i, hop, hhop, rfl⟩
    obtain ⟨hmem, hval, -⟩ := mem_refreshedTiers.mp hhop
    exact ⟨hval, hop, hmem, rfl⟩
  · rintro ⟨hval, hop, hmem, rfl⟩
    exact ⟨_, hop, mem_refreshedTiers.mpr ⟨hmem, hval, rfl⟩, rfl⟩

lemma nodup_tierFaces_refreshed
    (hdist : ((snapshotNexthops nexthops).map (·.nexthop)).Nodup) :
    (tierFaces (refreshedTiers info nexthops)).Nodup := by
  have h1 := perm_tierFaces_group.nodup_iff.mpr hdist
  rw [refreshedTiers,
    tierFaces_filter fun f => decide (f ∈ info.validUpstreams \ disappeared info nexthops)]
  exact h1.filter _

lemma mem_refreshedProbed (hnd : info.probedUpstreams.Nodup) :
    f ∈ refreshedProbed info nexthops
      ↔ f ∈ info.probedUpstreams ∧ f ∈ info.validUpstreams ∧ f ∈ latestFaces nexthops := by
  rw [refreshedProbed, filterProbed, mem_distinct, foldl_erase_eq hnd,
    mem_filter, mem_filter, decide_eq_true_iff, decide_eq_true_iff, mem_sdiff_disappeared,
    disappeared, Finset.mem_filter]
  tauto

lemma nodup_refreshedProbed : (refreshedProbed info nexthops).Nodup :=
  nodup_distinct _

end Refresh

end Mars
