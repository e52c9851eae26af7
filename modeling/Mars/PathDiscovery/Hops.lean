import Mars.PathDiscovery.Rules

/-!
The faces that path discovery works with are those of the nexthops it has been handed.

* `Hops Q`: the faces of the wait list and the valid faces of the DT phase meet `Q`;
* `hops_pdLocked`, `hops_pdHandle`: every handler keeps this if the nexthops of an Interest
  meet `Q`.
-/

namespace Mars

open Outcome

variable {Q : Face → Prop} {info : PathDiscoveryInfo}

/-- The faces of the wait list, and the valid faces of the DT phase, meet `Q`. -/
structure Hops (Q : Face → Prop) (info : PathDiscoveryInfo) : Prop where
  wait : ∀ f ∈ tierFaces info.waitList, Q f
  valid : ∀ f ∈ info.dtValidFaces, Q f

/-- The nexthops of an Interest meet `Q`. -/
def PdInput.HopsMeet (Q : Face → Prop) : PdInput → Prop
  | .interest _ _ _ nexthops => ∀ f ∈ latestFaces nexthops, Q f
  | _ => True

lemma hops_new {key : Str} : Hops Q (.new key) :=
  ⟨fun _ h => absurd h List.not_mem_nil, fun _ h => absurd h List.not_mem_nil⟩

namespace Hops

variable (h : Hops Q info)
include h

lemma excludeFace {face : Face} : Hops Q (excludeFace info face) where
  wait f hf := by
    have hfilter := tierFaces_filter (· ≠ face) info.waitList
    exact h.wait f (List.mem_filter.mp (hfilter ▸ hf)).1
  valid := h.valid

/-! ### Convergence -/

/-- The valid faces of the DT phase are taken from the wait list. -/
lemma localNodeConverged : (localNodeConverged info).Ensures (Hops Q) (Hops Q) fun _ => True := by
  refine ensures_localNodeConverged (fun _ => h) (fun _ => ⟨h.wait, fun f hf => ?_⟩)
    fun _ => trivial
  have hmem : f ∈ tierFaces (info.waitList.filter (· ≠ [])) := Grouping.mem_distinct.mp hf
  rw [tierFaces_filter_ne_nil] at hmem
  exact h.wait f hmem

lemma checkCurrentTier : (checkCurrentTier info).Ensures (Hops Q) (Hops Q) fun _ => True := by
  have hclear : Hops Q (clearUpperTiers info) := by
    refine ⟨fun f hf => ?_, h.valid⟩
    have hmem : f ∈ tierFaces (info.waitList.take info.currentTier) := tierFaces_clear ▸ hf
    refine h.wait f ?_
    rw [← tierFaces_take_append_drop info.currentTier]
    exact List.mem_append_left _ hmem
  exact ensures_checkCurrentTier (fun _ => h) (fun _ => trivial) fun _ =>
    hclear.localNodeConverged

/-! ### Probing -/

lemma probeTier {node : Str} {tierIndex : ℕ} :
    (probeTier node info tierIndex).Ensures (Hops Q) (Hops Q) fun _ => True := by
  have hprobed : Hops Q (probeFaces info tierIndex) := by
    rw [probeFaces_eq]
    exact { h with }
  exact ensures_probeTier (fun _ => h) (fun _ _ => hprobed) fun _ _ => hprobed.localNodeConverged

lemma foldl_removeTier {is : List ℕ} : Hops Q (is.foldl Mars.removeTier info) := by
  induction is generalizing info with
  | nil => exact h
  | cons i is ih =>
    refine ih ⟨fun f hf => ?_, h.valid⟩
    exact h.wait f ((tierFaces_split info.waitList i).mem_iff.mpr (List.mem_append_right _ hf))

end Hops

section Nexthops

variable {nexthops : List (Option FibNextHopEntry)} (hhops : ∀ f ∈ latestFaces nexthops, Q f)
include hhops

lemma Hops.firstTiers (h : Hops Q info) (probeIdx : ℤ) :
    Hops Q (firstTiers info probeIdx nexthops) := by
  refine Hops.foldl_removeTier ?_
  refine ⟨fun f hf => ?_, h.valid⟩
  exact hhops f (List.mem_toFinset.mpr (perm_tierFaces_group.mem_iff.mp hf))

lemma Hops.refresh (h : Hops Q info) : Hops Q (refreshPathDiscoverySnapshot info nexthops) := by
  by_cases hne : snapshotNexthops nexthops = []
  · rwa [refresh_of_nil hne]
  · rw [refresh_eq hne]
    exact ⟨fun f hf => hhops f (mem_tierFaces_refreshed.mp hf).2, h.valid⟩

lemma Hops.advanceProbe (h : Hops Q info) {node : Str} {probeIdx : ℤ} :
    (advanceProbe node info probeIdx nexthops).Ensures (Hops Q) (Hops Q) fun _ => True := by
  have hrefresh := h.refresh hhops
  refine ensures_advanceProbe (fun _ _ => hrefresh) (fun _ _ => ?_) (fun _ => h) fun _ => h
  have hnext : Hops Q (nextTier info probeIdx nexthops) := { hrefresh with }
  exact hnext.probeTier

end Nexthops

/-! ### The handlers -/

lemma keeps_hops : PdKeeps (Hops Q) where
  marks h _ _ _ _ _ := { h with }
  exclude h _ := h.excludeFace
  countTier h _ := { h with }
  converge h := h.localNodeConverged
  checkTier h := h.checkCurrentTier

/-- **Every handler keeps to the faces it has been handed.** -/
theorem hops_pdLocked (h : Hops Q info) (node : Str) {i : PdInput} (hi : i.HopsMeet Q) :
    Hops Q (pdLocked node info i).state := by
  refine keeps_hops.pdLocked h (fun _ hs _ => { hs with }) ?_
  rintro srcNode probeIdx inFace nexthops rfl
  refine keeps_hops.interest h (P := Hops Q) (fun _ _ => ?_) (fun _ hs => hs)
    fun _ hs _ => hs.advanceProbe hi
  refine ensures_initializeDiscovery (fun _ => h) fun _ => ?_
  have hfirst := h.firstTiers hi probeIdx
  exact (hfirst.probeTier).mono (fun _ hs => { hs with }) (fun _ hs => hs) fun _ h => h

/-- The nexthops handed in with an event meet `Q`. -/
def PdEvent.HopsMeet (Q : Face → Prop) (e : PdEvent) : Prop :=
  ∀ ki ∈ e.input, ki.2.HopsMeet Q

lemma hops_pdHandle {st : PdStore} (h : ∀ key, Hops Q (st key)) (node : Str) {e : PdEvent}
    (he : e.HopsMeet Q) (key : Str) : Hops Q ((pdHandle node st e).state key) := by
  cases hinput : e.input with
  | none =>
    rw [(pdHandle_of_no_input hinput).1]
    exact h key
  | some ki =>
    obtain ⟨k, i⟩ := ki
    rw [pdHandle_of_input hinput, PdStore.locked]
    rcases eq_or_ne key k with rfl | hne
    · simpa using hops_pdLocked (h key) node (he (key, i) hinput)
    · simpa [hne] using h key

end Mars
