import Mars.PathDiscovery.Consistency

/-!
Probing covers the tiers reached, as long as the tiers do not shift.

`currentTier` is a bare index into the wait list.  A refresh rebuilds the wait list from
the nexthops of the packet at hand, so the index may then stand for other faces: a face
of a tier below it need not have been probed (`reached_tier_not_probed`).

* `reachedFaces`: the faces of the tiers up to the current one;
* `StableTiers`: the nexthops of a refresh put no unprobed face into a tier reached and
  no probed face beyond the tier probed next;
* `Covered`: the probed faces are the faces reached, before convergence;
* `probed_covers_reached`: it holds in every run in which every refresh is stable.
-/

namespace Mars

open Outcome
open Grouping (addDistinct rank)

/-- The faces of the tiers up to the current one. -/
def reachedFaces (info : PathDiscoveryInfo) : List Face :=
  tierFaces (info.waitList.take (info.currentTier + 1))

/-- The nexthops keep the faces of the tiers reached where they are: among the valid
faces, those cheaper than the tier after the current one are probed, and those probed
are no dearer than it. -/
def StableTiers (info : PathDiscoveryInfo) (nexthops : List (Option FibNextHopEntry)) : Prop :=
  ∀ hop ∈ snapshotNexthops nexthops, hop.nexthop ∈ info.validUpstreams →
    (rank ((snapshotNexthops nexthops).map (·.cost)) hop.cost ≤ info.currentTier →
      hop.nexthop ∈ info.probedUpstreams)
    ∧ (hop.nexthop ∈ info.probedUpstreams →
      rank ((snapshotNexthops nexthops).map (·.cost)) hop.cost ≤ info.currentTier + 1)

/-- An Interest with a higher probe index at a node still probing: the case in which the
handler refreshes the tiers. -/
def Advances (node : Str) (info : PathDiscoveryInfo) (srcNode : Str) (probeIdx : ℤ) : Prop :=
  isRelevant node info.prefixKey srcNode = true ∧ info.isInvalidNode = false
    ∧ info.isInitialized = true ∧ info.isNodeConverged = false ∧ info.probeIndex < probeIdx

/-- Every refresh is stable. -/
def StableRefresh (node : Str) (info : PathDiscoveryInfo) : PdInput → Prop
  | .interest srcNode probeIdx _ nexthops =>
    Advances node info srcNode probeIdx → StableTiers info nexthops
  | _ => True

instance (info : PathDiscoveryInfo) (nexthops : List (Option FibNextHopEntry)) :
    Decidable (StableTiers info nexthops) :=
  inferInstanceAs (Decidable (∀ hop ∈ snapshotNexthops nexthops, _))

instance (node : Str) (info : PathDiscoveryInfo) (srcNode : Str) (probeIdx : ℤ) :
    Decidable (Advances node info srcNode probeIdx) :=
  inferInstanceAs (Decidable (_ ∧ _))

instance (node : Str) (info : PathDiscoveryInfo) : ∀ i, Decidable (StableRefresh node info i)
  | .interest srcNode probeIdx _ nexthops =>
    inferInstanceAs (Decidable (Advances node info srcNode probeIdx → StableTiers info nexthops))
  | .nack _ _ _ => isTrue trivial
  | .data _ _ _ _ => isTrue trivial

/-- The probed faces are the faces reached, while the node is initialized and has not
converged. -/
structure Covered (info : PathDiscoveryInfo) : Prop where
  nodup_probed : info.probedUpstreams.Nodup
  covered : info.isInitialized = true → info.isNodeConverged = false →
    ∀ f, f ∈ info.probedUpstreams ↔ f ∈ reachedFaces info
  fresh : info.isInitialized = false → info.probedUpstreams = []

variable {info : PathDiscoveryInfo} {nexthops : List (Option FibNextHopEntry)}

lemma covered_new {key : Str} : Covered (.new key) where
  nodup_probed := List.nodup_nil
  covered hinit := by cases hinit
  fresh _ := rfl

lemma mem_reachedFaces {f : Face} :
    f ∈ reachedFaces info ↔ ∃ i ≤ info.currentTier, ∃ hop ∈ info.waitList.getD i [],
      hop.nexthop = f := by
  rw [reachedFaces, mem_tierFaces_take_getD]
  simp only [Nat.lt_succ_iff]

/-! ### Giving up faces -/

lemma reachedFaces_excludeFace {face : Face} :
    reachedFaces (excludeFace info face) = (reachedFaces info).filter (· ≠ face) := by
  rw [reachedFaces, reachedFaces, ← tierFaces_filter (· ≠ face), List.map_take]
  rfl

lemma Covered.excludeFace (h : Covered info) {face : Face} : Covered (excludeFace info face) where
  nodup_probed := h.nodup_probed.erase face
  covered hinit hconv f := by
    rw [reachedFaces_excludeFace, List.mem_filter, ← h.covered hinit hconv f]
    change f ∈ info.probedUpstreams.erase face ↔ _
    rw [h.nodup_probed.mem_erase_iff, decide_eq_true_iff, and_comm]
  fresh hinit := by
    change info.probedUpstreams.erase face = []
    rw [h.fresh hinit, List.erase_nil]

/-! ### Convergence and probing -/

/-- After convergence nothing is asked of the probed faces. -/
lemma covered_localNodeConverged (hnd : info.probedUpstreams.Nodup)
    (hfresh : info.isInitialized = false → info.probedUpstreams = []) :
    (localNodeConverged info).Ensures Covered Covered fun _ => True := by
  refine ensures_localNodeConverged (fun hconv => ?_) (fun _ => ?_) fun _ => trivial
  · exact ⟨hnd, fun _ hnot => absurd (hconv.symm.trans hnot) (by decide), hfresh⟩
  · exact ⟨hnd, fun _ hnot => Bool.noConfusion hnot, hfresh⟩

lemma Covered.checkCurrentTier (h : Covered info) :
    (checkCurrentTier info).Ensures Covered Covered fun _ => True :=
  ensures_checkCurrentTier (fun _ => h) (fun _ => trivial) fun _ =>
    covered_localNodeConverged h.nodup_probed h.fresh

/-- Probing a tier covers the faces reached if it closes the gap to them. -/
lemma covered_probeTier {node : Str} {tierIndex : ℕ} (hnd : info.probedUpstreams.Nodup)
    (hinit : info.isInitialized = true)
    (hgap : info.isNodeConverged = false → ∀ f,
      (f ∈ info.probedUpstreams ∨ f ∈ facesAt info tierIndex) ↔ f ∈ reachedFaces info) :
    (probeTier node info tierIndex).Ensures Covered Covered fun _ => True := by
  have hfresh : ∀ faces : List Face, info.isInitialized = false → faces = [] := by
    simp [hinit]
  have hframe := probeFaces_eq info tierIndex
  have hnd' : (probeFaces info tierIndex).probedUpstreams.Nodup := by
    rw [hframe]
    exact Grouping.nodup_addDistinct hnd
  have hfresh' : (probeFaces info tierIndex).isInitialized = false →
      (probeFaces info tierIndex).probedUpstreams = [] := by
    rw [hframe]
    exact hfresh _
  refine ensures_probeTier (fun hlen => ?_) (fun _ _ => ?_) fun _ _ =>
    covered_localNodeConverged hnd' hfresh'
  · refine ⟨hnd, fun _ hconv f => ?_, hfresh _⟩
    rw [← hgap hconv f, facesAt, List.getD_eq_default _ _ hlen]
    simp
  · refine ⟨hnd', fun _ hconv f => ?_, hfresh'⟩
    rw [hframe] at hconv ⊢
    rw [Grouping.mem_addDistinct]
    exact hgap hconv f

/-! ### The refresh -/

lemma mem_reachedFaces_refresh {n : ℕ} {f : Face} :
    f ∈ tierFaces ((refreshedTiers info nexthops).take n)
      ↔ ∃ hop ∈ snapshotNexthops nexthops, hop.nexthop = f ∧ f ∈ info.validUpstreams
        ∧ rank ((snapshotNexthops nexthops).map (·.cost)) hop.cost < n := by
  rw [mem_tierFaces_take_getD]
  constructor
  · rintro ⟨i, hi, hop, hhop, rfl⟩
    obtain ⟨hmem, hval, rfl⟩ := mem_refreshedTiers.mp hhop
    exact ⟨hop, hmem, rfl, hval, hi⟩
  · rintro ⟨hop, hmem, rfl, hval, hlt⟩
    exact ⟨_, hlt, hop, mem_refreshedTiers.mpr ⟨hmem, hval, rfl⟩, rfl⟩

section Advance

variable {nexthops : List (Option FibNextHopEntry)}

/-- A stable refresh after which no tier is left: every face that is left is probed. -/
lemma StableTiers.mem_probed_of_end (hstable : StableTiers info nexthops)
    (hnd : info.probedUpstreams.Nodup) {n : ℕ} (hn : n ≤ info.currentTier + 1)
    (hlen : (refreshedTiers info nexthops).length ≤ n) {f : Face} :
    f ∈ refreshedProbed info nexthops ↔ f ∈ tierFaces ((refreshedTiers info nexthops).take n) := by
  rw [mem_refreshedProbed hnd]
  constructor
  · rintro ⟨-, hval, hlisted⟩
    rw [List.take_of_length_le hlen]
    exact mem_tierFaces_refreshed.mpr ⟨hval, hlisted⟩
  · intro hf
    obtain ⟨hop, hmem, rfl, hval, hrank⟩ := mem_reachedFaces_refresh.mp hf
    refine ⟨(hstable hop hmem hval).1 (by omega), hval, mem_latestFaces.mpr ⟨hop, hmem, rfl⟩⟩

/-- A stable refresh after which the next tier closes the gap to the faces reached. -/
lemma StableTiers.mem_probed_or_next (hstable : StableTiers info nexthops)
    (hnd : info.probedUpstreams.Nodup) {f : Face} :
    (f ∈ refreshedProbed info nexthops
        ∨ ∃ hop ∈ (refreshedTiers info nexthops).getD (info.currentTier + 1) [], hop.nexthop = f)
      ↔ f ∈ tierFaces ((refreshedTiers info nexthops).take (info.currentTier + 2)) := by
  rw [mem_refreshedProbed hnd, mem_reachedFaces_refresh]
  constructor
  · rintro (⟨hprobed, hval, hlisted⟩ | ⟨hop, hhop, rfl⟩)
    · obtain ⟨hop, hmem, rfl⟩ := mem_latestFaces.mp hlisted
      have hrank := (hstable hop hmem hval).2 hprobed
      exact ⟨hop, hmem, rfl, hval, by omega⟩
    · obtain ⟨hmem, hval, hrank⟩ := mem_refreshedTiers.mp hhop
      exact ⟨hop, hmem, rfl, hval, by omega⟩
  · rintro ⟨hop, hmem, rfl, hval, hrank⟩
    by_cases hle : rank ((snapshotNexthops nexthops).map (·.cost)) hop.cost ≤ info.currentTier
    · exact Or.inl ⟨(hstable hop hmem hval).1 hle, hval, mem_latestFaces.mpr ⟨hop, hmem, rfl⟩⟩
    · exact Or.inr ⟨hop, mem_refreshedTiers.mpr ⟨hmem, hval, by omega⟩, rfl⟩

/-- Reaching one more tier reaches its faces. -/
lemma mem_tierFaces_take_succ {tiers : List (List HopSnapshot)} {n : ℕ} {f : Face} :
    f ∈ tierFaces (tiers.take (n + 1))
      ↔ f ∈ tierFaces (tiers.take n) ∨ ∃ hop ∈ tiers.getD n [], hop.nexthop = f := by
  rw [mem_tierFaces_take_getD, mem_tierFaces_take_getD]
  constructor
  · rintro ⟨i, hi, hhop⟩
    rcases Nat.lt_succ_iff_lt_or_eq.mp hi with hlt | rfl
    · exact Or.inl ⟨i, hlt, hhop⟩
    · exact Or.inr hhop
  · rintro (⟨i, hi, hhop⟩ | hhop)
    · exact ⟨i, by omega, hhop⟩
    · exact ⟨n, by omega, hhop⟩

lemma Covered.advanceProbe (h : Covered info) (hconv : info.isNodeConverged = false)
    (hinit : info.isInitialized = true) {node : Str} {probeIdx : ℤ}
    (hstable : info.probeIndex < probeIdx → StableTiers info nexthops) :
    (advanceProbe node info probeIdx nexthops).Ensures Covered Covered fun _ => True := by
  by_cases hne : snapshotNexthops nexthops = []
  · -- nothing is refreshed, and the next tier is reached and probed
    have hsame : refreshPathDiscoverySnapshot info nexthops = info := refresh_of_nil hne
    have hnext : nextTier info probeIdx nexthops
        = { info with probeIndex := probeIdx, currentTier := info.currentTier + 1 } := by
      rw [nextTier, hsame]
    refine ensures_advanceProbe (fun _ _ => hsame.symm ▸ h) (fun _ _ => ?_) (fun _ => h)
      fun _ => h
    rw [hnext]
    refine covered_probeTier h.nodup_probed hinit fun _ f => ?_
    rw [h.covered hinit hconv f, mem_facesAt]
    exact mem_tierFaces_take_succ.symm
  · have hframe : refreshPathDiscoverySnapshot info nexthops = _ := refresh_eq hne
    refine ensures_advanceProbe (fun hidx hlen => ?_) (fun hidx hlen => ?_) (fun _ => h)
      fun _ => h
    · rw [hframe] at hlen ⊢
      refine ⟨nodup_refreshedProbed, fun _ _ f => ?_, fun hnot => ?_⟩
      · exact (hstable hidx).mem_probed_of_end h.nodup_probed (by dsimp only; omega) hlen
      · exact absurd (hinit.symm.trans hnot) (by decide)
    · rw [hframe] at hlen
      rw [nextTier, hframe]
      dsimp only at hlen ⊢
      have htier : min info.currentTier ((refreshedTiers info nexthops).length - 1)
          = info.currentTier := by omega
      refine covered_probeTier nodup_refreshedProbed hinit fun _ f => ?_
      rw [mem_facesAt, reachedFaces, htier]
      exact (hstable hidx).mem_probed_or_next h.nodup_probed

end Advance

/-! ### The handlers -/

lemma covered_firstTiers (h : Covered info) (hinit : info.isInitialized = false) {node : Str}
    {probeIdx : ℤ} :
    (probeTier node (firstTiers info probeIdx nexthops)
      (firstTiers info probeIdx nexthops).currentTier).Ensures Covered Covered
        fun _ => True := by
  have hnone : (firstTiers info probeIdx nexthops).probedUpstreams = [] :=
    (firstTiers_probedUpstreams ..).trans (h.fresh hinit)
  refine covered_probeTier ?_ (firstTiers_isInitialized ..) fun _ f => ?_
  · rw [hnone]
    exact List.nodup_nil
  · rw [hnone, mem_reachedFaces, firstTiers_currentTier, mem_facesAt]
    simp

lemma keeps_covered : PdKeeps Covered where
  marks h _ _ _ _ _ := { h with }
  exclude h _ := h.excludeFace
  countTier h _ := { h with }
  converge h := covered_localNodeConverged h.nodup_probed h.fresh
  checkTier h := h.checkCurrentTier

lemma Covered.interest (h : Covered info) {node srcNode : Str} {probeIdx : ℤ} {inFace : Face}
    (hstable : Advances node info srcNode probeIdx → StableTiers info nexthops) :
    (pathDiscoveryInterest node info srcNode probeIdx inFace nexthops).Ensures Covered Covered
      fun _ => True := by
  refine keeps_covered.interest h (P := fun s => Covered s ∧ s.isInitialized = true
    ∧ (s.isNodeConverged = false → s.probeIndex < probeIdx → StableTiers s nexthops))
    (fun hrel hinv => ?_) (fun _ hs => hs.1)
    fun _ hs hconv => hs.1.advanceProbe hconv hs.2.1 (hs.2.2 hconv)
  -- a prefix that has just been initialized has the probe index of the packet
  refine ensures_initializeDiscovery
    (fun hinit => ⟨h, hinit, fun hconv hidx => hstable ⟨hrel, hinv, hinit, hconv, hidx⟩⟩)
    fun hinit => ?_
  refine ((covered_firstTiers h hinit).andGo
    probeTier_sameStage).mono ?_ (fun _ hs => hs) fun _ _ => trivial
  rintro s ⟨hcov, hsame⟩
  have hset : s.isInitialized = true := hsame.isInitialized.trans (firstTiers_isInitialized ..)
  have hidx : s.probeIndex = probeIdx := hsame.probeIndex.trans (firstTiers_probeIndex ..)
  refine ⟨{ hcov with }, hset, fun _ hlt => ?_⟩
  exact absurd hlt (by rw [hidx]; exact lt_irrefl _)

/-- A step at which no refresh shifts the tiers keeps the probed faces and the faces
reached equal. -/
lemma covered_step {node : Str} (h : Covered info) {i : PdInput}
    (hi : StableRefresh node info i) : Covered (prefixStep node info i) := by
  refine keeps_covered.pdLocked h (fun _ hs _ => { hs with }) ?_
  rintro srcNode probeIdx inFace nexthops rfl
  exact h.interest hi

/-- **Probing covers exactly the tiers reached** in every run in which every refresh is
stable. -/
theorem probed_covers_reached (node key : Str) (es : List PdEvent)
    (hes : GuardedRun node key (StableRefresh node) es) :
    let info := pdRun node es key
    info.isInitialized = true → info.isNodeConverged = false →
      ∀ f, f ∈ info.probedUpstreams
        ↔ f ∈ tierFaces (info.waitList.take (info.currentTier + 1)) :=
  (prefix_invariant covered_new (fun _ _ h hi => covered_step h hi) hes).covered

/-- A run in which two of three tiers have been probed, the second after a face of it has
gone. -/
theorem probed_covers_reached_two_tiers :
    let es := [probe '0' 9 [(1, 10), (2, 11), (4, 11), (3, 12)],
      probe '1' 9 [(1, 10), (2, 11), (3, 12)]]
    let info := pdRun conNode es ['p']
    info.isInitialized = true ∧ info.isNodeConverged = false
      ∧ ∀ f, f ∈ info.probedUpstreams
        ↔ f ∈ tierFaces (info.waitList.take (info.currentTier + 1)) := by
  intro es info
  have hinit : info.isInitialized = true := by decide
  have hconv : info.isNodeConverged = false := by decide
  exact ⟨hinit, hconv, probed_covers_reached conNode ['p'] es (by decide) hinit hconv⟩

/-- **The tiers may shift**: once the only face of the first tier is no longer listed, its
index stands for the second tier, which is then skipped. -/
theorem reached_tier_not_probed :
    let info := pdRun conNode
      [probe '0' 9 [(1, 10), (2, 11), (3, 12)], probe '1' 9 [(2, 11), (3, 12)]] ['p']
    info.isInitialized = true ∧ info.isNodeConverged = false
      ∧ 2 ∈ tierFaces (info.waitList.take (info.currentTier + 1))
      ∧ 2 ∉ info.probedUpstreams := by
  decide

end Mars
