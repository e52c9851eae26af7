import Mars.Dt.Accounting
import Mars.Dt.NackedFace

/-!
What a reassignment leaves on the failed face.

* `Listed`: the keys of the queues are complete, so that the loop over them misses none;
* `Sturdy`: the items a thread queues are its own and have real faces as candidates;
* `selectDtAssignedFaceWRR_ne_zero`: the round robin over real faces selects one;
* `stranded_reassign`: an item that is still assigned to the failed face after the reassignment
  has no other candidate, and its prefix no other valid face.
-/

namespace Mars

open Function List WrrRound

/-! ### The keys of the queues -/

section Queues

variable {own : DtLocal} {view : DtView} {key : Str}

/-- A prefix that is not among the keys has no queue. -/
def Listed (own : DtLocal) : Prop := ∀ key, key ∉ own.dtQueueKeys → own.dtQueuesByPrefix key = []

lemma listed_new : Listed .new := fun _ _ => rfl

lemma Listed.setQueue (h : Listed own) {queue : List InterestQueueItem}
    (hqueue : key ∉ own.dtQueueKeys → queue = []) : Listed (own.setQueue key queue) :=
  (forall_update_iff _ fun k queue => k ∉ own.dtQueueKeys → queue = []).mpr
    ⟨hqueue, fun k _ => h k⟩

lemma Listed.addKey (h : Listed own) : Listed (own.addKey key) := by
  intro k hk
  refine h k fun hmem => hk ?_
  simp only [DtLocal.addKey]
  split_ifs
  exacts [hmem, mem_append_left _ hmem]

namespace Listed

variable (h : Listed view.own)
include h

lemma enqueue {n threadID : ℕ} {item : InterestQueueItem} :
    Listed (enqueueLocalDtInterest n threadID view key item).own := by
  have hset : Listed ((view.own.addKey key).setQueue key
      (view.own.dtQueuesByPrefix key ++ [item])) :=
    (h.addKey).setQueue fun hnot => absurd mem_addKey hnot
  simp only [enqueueLocalDtInterest]
  split_ifs <;> exact hset

lemma dequeue {n threadID : ℕ} {face : Face} :
    Listed (dequeueDtInterestForFaceRR n threadID view face).1.own := by
  unfold dequeueDtInterestForFaceRR
  split
  · exact h
  · rename_i idx k item _
    exact h.setQueue fun hnot => by rw [h k hnot, eraseP_nil]

lemma drainFaces (n threadID : ℕ) (snapshot : DtFailureSnapshot)
    (visits : ℕ) : Listed (Mars.drainFaces n threadID snapshot visits view).1.own := by
  induction visits generalizing view with
  | zero => exact h
  | succ visits ih =>
    exact ih (drain_rule (I := fun view => Listed view.own) (O := fun _ => True)
      (fun _ h => ⟨h.dequeue, fun _ _ => trivial⟩)
      { view with own := { view.own with dtLocalFaceRR := view.own.dtLocalFaceRR + 1 } } h h _).1

lemma reassignPrefix {n threadID : ℕ} {blockedFace : Face}
    {dtValidFaces : Str → List Face} :
    Listed (reassignPrefix n threadID blockedFace dtValidFaces view key).own := by
  have hkeys : ∀ (queue : List InterestQueueItem) (view : DtView),
      (reassignItems n threadID blockedFace (dtValidFaces key) key queue view).1.own.dtQueueKeys
        = view.own.dtQueueKeys := by
    intro queue
    induction queue with
    | nil => exact fun _ => rfl
    | cons item queue ih =>
      exact fun view => (ih _).trans (dtQueueKeys_reassignItem view key item n threadID _ _)
  have hmoved : Listed (reassignItems n threadID blockedFace (dtValidFaces key) key
      (view.own.dtQueuesByPrefix key) view).1.own := by
    intro k hk
    rw [hkeys] at hk
    rw [reassignItems_queues]
    exact h k hk
  refine hmoved.setQueue fun hnot => ?_
  rw [hkeys] at hnot
  rw [h key hnot]
  rfl

lemma reassign (n threadID : ℕ) (blockedFace : Face)
    (dtValidFaces : Str → List Face) (wish : List Str) :
    Listed (reassignLocalDtInterestsFromFailedFace n threadID view blockedFace dtValidFaces
      wish).own :=
  reassign_rule (I := fun view => Listed view.own)
    (fun _ _ h => h.reassignPrefix) h

end Listed

end Queues

/-! ### The reassignment -/

/-- There is no face but `f`. -/
def OnlyFace (f : Face) (faces : List Face) : Prop := ∀ g ∈ faces, g = f

/-- An item that waits for face `f` has nowhere else to go. -/
def Stranded (f : Face) (valid : Str → List Face) (key : Str) (item : InterestQueueItem) : Prop :=
  item.assignedFace = f → OnlyFace f item.candidateFaces ∧ OnlyFace f (valid key)

section Reassign

variable {f : Face} {valid : Str → List Face} {key : Str} {item : InterestQueueItem}
  {threadID : ℕ} {view : DtView} {faces : List Face}

lemma notMem_dtFilterFacesWithoutFailure (hne : f ≠ 0) :
    f ∉ dtFilterFacesWithoutFailure faces f := by
  simp [dtFilterFacesWithoutFailure, hne]

lemma dtFilterFacesWithoutFailure_eq_nil (hf : f ≠ 0) :
    dtFilterFacesWithoutFailure faces f = [] ↔ OnlyFace f faces := by
  simp [dtFilterFacesWithoutFailure, hf, OnlyFace]

lemma survivorsOf_eq_nil (hf : f ≠ 0) (h : survivorsOf f faces item = []) :
    OnlyFace f item.candidateFaces ∧ OnlyFace f faces := by
  simp only [survivorsOf] at h
  split_ifs at h with hnone
  · exact ⟨(dtFilterFacesWithoutFailure_eq_nil hf).mp hnone,
      (dtFilterFacesWithoutFailure_eq_nil hf).mp h⟩
  · exact absurd h hnone

lemma notMem_survivorsOf (hf : f ≠ 0) : f ∉ survivorsOf f faces item := by
  simp only [survivorsOf]
  split_ifs <;> exact notMem_dtFilterFacesWithoutFailure hf

/-- The round robin over real faces selects one. -/
lemma selectDtAssignedFaceWRR_ne_zero {shared : DtShared} {credits : Face → ℚ}
    {candidateFaces : List Face} (hne : candidateFaces ≠ []) (hreal : 0 ∉ candidateFaces) :
    (selectDtAssignedFaceWRR shared credits candidateFaces).2 ≠ 0 := by
  have hkeep : ∀ (faces : List Face) (round : WrrRound), 0 ∉ faces → round.selected ≠ 0 →
      (faces.foldl (visit shared) round).selected ≠ 0 := by
    intro faces
    induction faces with
    | nil => exact fun _ _ h => h
    | cons g faces ih =>
      intro round hmem hsel
      rw [mem_cons, not_or] at hmem
      refine ih _ hmem.2 ?_
      simp only [visit]
      split_ifs
      exacts [Ne.symm hmem.1, hsel]
  obtain ⟨g, faces, rfl⟩ := exists_cons_of_ne_nil hne
  rw [mem_cons, not_or] at hreal
  have hsel : ((g :: faces).foldl (visit shared) ⟨credits, 0, 0, 0⟩).selected ≠ 0 := by
    refine hkeep faces _ hreal.2 ?_
    simp only [visit, true_or, if_true]
    exact Ne.symm hreal.1
  simp only [selectDtAssignedFaceWRR, if_neg hne, if_neg hsel]
  exact hsel

/-- The items that a thread queues: they are its own, and have real faces as candidates. -/
def Sturdy (threadID : ℕ) (_ : Str) (item : InterestQueueItem) : Prop :=
  item.ownerThreadID = threadID ∧ 0 ∉ item.candidateFaces

lemma notMem_survivorsOf_zero (hitem : Sturdy threadID key item) (hvalid : 0 ∉ faces) :
    0 ∉ survivorsOf f faces item := by
  intro hmem
  rcases survivorsOf_subset 0 hmem with h | h
  exacts [hitem.2 h, hvalid h]

lemma movesAlong_sturdy (hvalid : ∀ key, 0 ∉ valid key) : MovesAlong (Sturdy threadID) f valid :=
  fun _ _ hitem _ _ => ⟨hitem.1, notMem_survivorsOf_zero hitem (hvalid _)⟩

/-- **An item on the failed face moves** if there is another face for it. -/
lemma stranded_reassignItem (hf : f ≠ 0) (n : ℕ) (view : DtView)
    (hitem : Sturdy threadID key item) (hvalid : 0 ∉ valid key) :
    Stranded f valid key (reassignItem n threadID f (valid key) key view item).2 := by
  simp only [reassignItem]
  split_ifs with hfor hnone hzero
  · exact fun _ => survivorsOf_eq_nil hf hnone
  · exact absurd hzero (selectDtAssignedFaceWRR_ne_zero hnone
      (notMem_survivorsOf_zero hitem hvalid))
  · intro heq
    have hface : (selectDtAssignedFaceWRR view.shared (view.own.dtAssignByPrefix key)
        (survivorsOf f (valid key) item)).2 = f := heq
    have hmem := (selectDtAssignedFaceWRR_mem view.shared (view.own.dtAssignByPrefix key)
      (survivorsOf f (valid key) item)).resolve_left hzero
    rw [hface] at hmem
    exact absurd hmem (notMem_survivorsOf hf)
  · intro heq
    exact absurd (isFor_iff.mpr ⟨hitem.1, heq⟩) hfor

lemma stranded_reassignItems (hf : f ≠ 0) (n : ℕ) (hvalid : 0 ∉ valid key)
    {queue : List InterestQueueItem} (hqueue : ∀ item ∈ queue, Sturdy threadID key item)
    (view : DtView) :
    ∀ item ∈ (reassignItems n threadID f (valid key) key queue view).2,
      Stranded f valid key item := by
  induction queue generalizing view with
  | nil => simp [reassignItems]
  | cons item queue ih =>
    obtain ⟨hitem, hrest⟩ := forall_mem_cons.mp hqueue
    exact forall_mem_cons.mpr
      ⟨stranded_reassignItem hf n view hitem hvalid, ih hrest _⟩

/-- The queue of a prefix that has been gone through. -/
def StrandedAt (f : Face) (valid : Str → List Face) (own : DtLocal) (key : Str) : Prop :=
  ∀ item ∈ own.dtQueuesByPrefix key, Stranded f valid key item

lemma queues_reassignPrefix {n : ℕ} {k : Str} :
    (reassignPrefix n threadID f valid view k).own.dtQueuesByPrefix
      = update view.own.dtQueuesByPrefix k (reassignItems n threadID f (valid k) k
          (view.own.dtQueuesByPrefix k) view).2 := by
  simp only [reassignPrefix, DtLocal.setQueue, reassignItems_queues]

/-- The loop over the prefixes: what has been gone through stays so. -/
lemma strandedAt_reassignPrefixes (hf : f ≠ 0) {n : ℕ} (hvalid : ∀ key, 0 ∉ valid key)
    {keys : List Str} (hitems : AllItems (Sturdy threadID) view.own)
    (h : key ∈ keys ∨ StrandedAt f valid view.own key) :
    StrandedAt f valid (keys.foldl (reassignPrefix n threadID f valid) view).own key := by
  induction keys generalizing view with
  | nil => exact h.resolve_left not_mem_nil
  | cons k keys ih =>
    have hone := stranded_reassignItems hf n (hvalid k) (hitems k) view
    refine ih (hitems.reassignPrefix (movesAlong_sturdy hvalid)) ?_
    rw [StrandedAt, queues_reassignPrefix]
    rcases eq_or_ne key k with rfl | hne
    · rw [update_self]
      exact .inr hone
    · rw [update_of_ne hne]
      exact h.imp_left fun hmem => (mem_cons.mp hmem).resolve_left hne

/-- **After the reassignment** every item that still waits for the failed face has no other
candidate, and its prefix no other valid face. -/
lemma stranded_reassign (hf : f ≠ 0) (n : ℕ) (hvalid : ∀ key, 0 ∉ valid key)
    (hlisted : Listed view.own) (hitems : AllItems (Sturdy threadID) view.own)
    (wish : List Str) :
    AllItems (Stranded f valid)
      (reassignLocalDtInterestsFromFailedFace n threadID view f valid wish).own := by
  intro key
  rw [reassignLocalDtInterestsFromFailedFace, if_neg hf]
  refine strandedAt_reassignPrefixes hf hvalid hitems ?_
  by_cases hkey : key ∈ view.own.dtQueueKeys
  · exact .inl (mem_rangeOrder.mpr hkey)
  · right
    rw [StrandedAt, hlisted key hkey]
    exact fun _ hitem => absurd hitem not_mem_nil

end Reassign

end Mars
