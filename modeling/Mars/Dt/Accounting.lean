import Mars.Dt.Queues
import Mars.Dt.Sound
import Mathlib.Data.List.GetD

/-!
The accounts of the DT queues are exact.

How many items wait for a face is kept four times: in the queues of the threads, in the demand
that each thread reports to the face, in the global length of each prefix, and in the list of
prefixes that a thread looks through for the face.

* `Ledger`: the demand a thread has reported, face by face; `Ledger.note` is the only way it
  changes;
* `Accounts`: the ledger and the queues of a thread agree; every operation on the queues keeps
  it (`Accounts.enqueue`, `Accounts.dequeue`, `Accounts.drain`, `Accounts.reassign`);
* `ExactNode`, `exactNode_step`: the accounts of all threads together;
* `dt_accounts_exact`: they hold in every run.
-/

namespace Mars

open Finset Function DtShared DtLocal

/-! ### Demand -/

section Demand

variable {control : DtFaceControlState} {n threadID : ℕ}

/-- A demand is noted for its own thread alone. -/
lemma demand_noteDtThreadDemand (h : threadID < n) {delta : ℤ} :
    (noteDtThreadDemand n control threadID delta).demandByThread
      = update control.demandByThread threadID
        (max 0 (control.demandByThread threadID + delta)) := by
  have hslot : threadID < (ensureDtControlThreadSlots n control).slots := by
    have hn : n ≠ 0 := by omega
    simp only [ensureDtControlThreadSlots, if_neg hn]
    omega
  simp only [noteDtThreadDemand, if_pos hslot]
  rfl

lemma demand_takeDtThreadBudget (maxPackets : ℤ) :
    (takeDtThreadBudget n control threadID maxPackets).1.demandByThread
      = control.demandByThread := by
  simp only [takeDtThreadBudget]
  split_ifs <;> rfl

lemma demand_spendGrant {grant : ℤ} :
    (spendGrant control grant).state.demandByThread = control.demandByThread := by
  unfold spendGrant
  split_ifs
  · rfl
  · rw [returnPackets_frame]
    rfl
  · dsimp only [Outcome.ret_state]
    rw [returnPackets_frame, assign_frame]

lemma demand_drawGrant : (drawGrant control).1.demandByThread = control.demandByThread := by
  simp only [drawGrant]
  split_ifs <;> rfl

lemma demand_reclaim : (reclaimDtThreadBudget control).demandByThread = control.demandByThread := by
  rw [reclaimDtThreadBudget, returnPackets_frame]

lemma demand_distribute :
    (distributeDtFaceBudget control).state.demandByThread = control.demandByThread := by
  rw [distributeDtFaceBudget, Outcome.go_bind]
  dsimp only
  rw [demand_spendGrant, demand_drawGrant, demand_reclaim]

lemma demand_allocate {now : Time} {blocked : Bool} :
    (allocateDtFaceBudgets n control now blocked).state.demandByThread
      = control.demandByThread := by
  simp only [allocateDtFaceBudgets]
  split_ifs
  · rfl
  · rfl
  · exact demand_reclaim
  · exact demand_distribute

/-- An event that changes what a thread demands. -/
def DtControlEvent.isDemand : DtControlEvent → Bool
  | .demand _ _ => true
  | _ => false

/-- The scheduler and the rate controller leave the demands alone. -/
lemma demand_dtControlStep {e : DtControlEvent} (h : e.isDemand = false) :
    (dtControlStep n control e).demandByThread = control.demandByThread := by
  cases e with
  | activate now =>
    simp only [dtControlStep, ensureDtControlActivated]
    split_ifs <;> rfl
  | rateRound newRate starved => rfl
  | demand threadID delta => exact absurd h (by simp [DtControlEvent.isDemand])
  | take threadID maxPackets => exact demand_takeDtThreadBudget maxPackets
  | allocate now blocked => exact demand_allocate
  | clear now => rfl

end Demand

/-! ### The ledger of a thread -/

/-- The number of items in the queues of a thread that are assigned to a face. -/
def pendingOn (own : DtLocal) (face : Face) : ℕ :=
  ∑ key ∈ own.dtQueueKeys.toFinset,
    (own.dtQueuesByPrefix key).countP (·.assignedFace = face)

/-- The demand that a thread has reported is `pending`, that of the other threads is `others`,
and no clamp has changed a value. -/
structure Ledger (threadID : ℕ) (others : Face → ℕ → ℤ) (pending : Face → ℤ)
    (shared : DtShared) : Prop where
  sound : ∀ f, Sound (shared.dtFaceControlByFace f)
  clamps : shared.clamps = 0
  demand : ∀ f, (shared.dtFaceControlByFace f).demandByThread threadID = pending f
  demand_others : ∀ f t, t ≠ threadID →
    (shared.dtFaceControlByFace f).demandByThread t = others f t

section Ledger

variable {n threadID : ℕ} {others : Face → ℕ → ℤ} {pending : Face → ℤ} {shared : DtShared}

/-- A demand that stays non-negative is noted as it is. -/
lemma Ledger.note (h : Ledger threadID others pending shared) (hthread : threadID < n)
    (face : Face) (delta : ℤ) (hpos : 0 ≤ pending face + delta) :
    Ledger threadID others (fun f => pending f + if face = f then delta else 0)
      (shared.noteThreadDemand n face threadID delta) := by
  have hdemand : ∀ f t, ((shared.noteThreadDemand n face threadID delta).dtFaceControlByFace
      f).demandByThread t = if f = face ∧ t = threadID then pending face + delta
        else (shared.dtFaceControlByFace f).demandByThread t := by
    intro f t
    rcases eq_or_ne f face with rfl | hf
    · simp only [noteThreadDemand, onFace, update_self,
        demand_noteDtThreadDemand hthread, h.demand, max_eq_right hpos]
      rcases eq_or_ne t threadID with rfl | ht
      · simp
      · simp [ht]
    · simp [noteThreadDemand, onFace, hf]
  refine ⟨?_, ?_, fun f => ?_, fun f t ht => ?_⟩
  · exact (forall_update_iff _ fun _ control => Sound control).mpr
      ⟨(h.sound face).noteDemand n threadID delta, fun f _ => h.sound f⟩
  · have hfree : ¬(shared.dtFaceControlByFace face).demandByThread threadID + delta < 0 := by
      rw [h.demand]
      omega
    simp only [noteThreadDemand, if_neg hfree, h.clamps]
  · rw [hdemand]
    rcases eq_or_ne f face with rfl | hf
    · simp
    · simp [hf, hf.symm, h.demand f]
  · rw [hdemand, if_neg fun hc => ht hc.2]
    exact h.demand_others f t ht

/-- A length that stays non-negative is noted as it is. -/
lemma Ledger.noteGlobal (h : Ledger threadID others pending shared) (key : Str) (delta : ℤ)
    (hpos : 0 ≤ shared.dtGlobalPrefixQueueByPrefix key + delta) :
    Ledger threadID others pending (shared.noteGlobalPrefixQueue key delta)
      ∧ (shared.noteGlobalPrefixQueue key delta).dtGlobalPrefixQueueByPrefix
        = update shared.dtGlobalPrefixQueueByPrefix key
          (shared.dtGlobalPrefixQueueByPrefix key + delta) := by
  have hfree : ¬shared.dtGlobalPrefixQueueByPrefix key + delta < 0 := not_lt.mpr hpos
  simp only [noteGlobalPrefixQueue, if_neg hfree]
  exact ⟨⟨h.sound, h.clamps, h.demand, h.demand_others⟩, trivial⟩

lemma noteThreadDemand_global (face : Face) (delta : ℤ) :
    (shared.noteThreadDemand n face threadID delta).dtGlobalPrefixQueueByPrefix
      = shared.dtGlobalPrefixQueueByPrefix := rfl

end Ledger

/-! ### The queues of a thread -/

/-- An item of a queue is owned by the thread and has a face, and its prefix is among those
that are looked through for the face. -/
structure Fits (threadID : ℕ) (own : DtLocal) (key : Str) (item : InterestQueueItem) : Prop where
  owned : item.ownerThreadID = threadID
  assigned : item.assignedFace ≠ 0
  eligible : key ∈ own.dtLocalFacePrefixes item.assignedFace

/-- What the queues of a thread look like. -/
structure Kept (threadID : ℕ) (own : DtLocal) : Prop where
  empty : ∀ key, key ∉ own.dtQueueKeys → own.dtQueuesByPrefix key = []
  fits : ∀ key, ∀ item ∈ own.dtQueuesByPrefix key, Fits threadID own key item

/-- **The accounts of a thread**: its ledger and its queues agree; `rest` are the lengths of
the queues of the other threads. -/
structure Accounts (threadID : ℕ) (others : Face → ℕ → ℤ) (rest : Str → ℕ)
    (view : DtView) : Prop where
  ledger : Ledger threadID others (fun f => pendingOn view.own f) view.shared
  length : ∀ key, view.shared.dtGlobalPrefixQueueByPrefix key
    = rest key + (view.own.dtQueuesByPrefix key).length
  kept : Kept threadID view.own

section Queues

variable {own : DtLocal} {key : Str} {queue : List InterestQueueItem} {face : Face}

/-- A queue that is replaced takes its items out of the count and puts the new ones in. -/
lemma pendingOn_setQueue (hkey : key ∈ own.dtQueueKeys) (queue : List InterestQueueItem)
    (face : Face) :
    pendingOn (own.setQueue key queue) face
        + (own.dtQueuesByPrefix key).countP (·.assignedFace = face)
      = pendingOn own face + queue.countP (·.assignedFace = face) := by
  have hmem : key ∈ own.dtQueueKeys.toFinset := List.mem_toFinset.mpr hkey
  have hold := add_sum_erase _
    (fun k => (own.dtQueuesByPrefix k).countP (·.assignedFace = face)) hmem
  have hnew := add_sum_erase _
    (fun k => ((own.setQueue key queue).dtQueuesByPrefix k).countP (·.assignedFace = face)) hmem
  have hrest : ∑ k ∈ own.dtQueueKeys.toFinset.erase key,
        ((own.setQueue key queue).dtQueuesByPrefix k).countP (·.assignedFace = face)
      = ∑ k ∈ own.dtQueueKeys.toFinset.erase key,
        (own.dtQueuesByPrefix k).countP (·.assignedFace = face) := by
    refine sum_congr rfl fun k hk => ?_
    simp [setQueue, ne_of_mem_erase hk]
  have hself : (own.setQueue key queue).dtQueuesByPrefix key = queue := update_self _ _ _
  simp only [hself, hrest] at hnew
  have hkeys : (own.setQueue key queue).dtQueueKeys = own.dtQueueKeys := rfl
  simp only [pendingOn, hkeys]
  omega

lemma countP_le_pendingOn (hkey : key ∈ own.dtQueueKeys) (face : Face) :
    (own.dtQueuesByPrefix key).countP (·.assignedFace = face) ≤ pendingOn own face :=
  single_le_sum (f := fun k => (own.dtQueuesByPrefix k).countP (·.assignedFace = face))
    (fun _ _ => Nat.zero_le _) (List.mem_toFinset.mpr hkey)

/-- A new key has an empty queue. -/
lemma pendingOn_addKey (hempty : key ∉ own.dtQueueKeys → own.dtQueuesByPrefix key = []) :
    pendingOn (own.addKey key) face = pendingOn own face := by
  unfold pendingOn addKey
  by_cases hkey : key ∈ own.dtQueueKeys
  · simp [hkey]
  · simp only [if_neg hkey, List.toFinset_append, List.toFinset_cons, List.toFinset_nil]
    refine (sum_subset subset_union_left fun k hk hnot => ?_).symm
    obtain rfl : k = key := by simpa [hnot] using hk
    simp [hempty hkey]

lemma mem_dtLocalFacePrefixes_note {f : Face} {p : Str} :
    p ∈ (noteLocalPrefixEligibleForFace own face key).dtLocalFacePrefixes f
      ↔ p ∈ own.dtLocalFacePrefixes f ∨ (f = face ∧ p = key) := by
  unfold noteLocalPrefixEligibleForFace
  by_cases hknown : key ∈ own.dtLocalFacePrefixes face
  · simp only [if_pos hknown]
    refine ⟨.inl, ?_⟩
    rintro (h | ⟨rfl, rfl⟩)
    exacts [h, hknown]
  · simp only [if_neg hknown]
    rcases eq_or_ne f face with rfl | hf
    · simp
    · simp [hf]

lemma Fits.noteEligible {threadID : ℕ} {item : InterestQueueItem} {p : Str}
    (h : Fits threadID own p item) (face : Face) (key : Str) :
    Fits threadID (noteLocalPrefixEligibleForFace own face key) p item :=
  { h with eligible := mem_dtLocalFacePrefixes_note.mpr (.inl h.eligible) }

lemma mem_addKey : key ∈ (own.addKey key).dtQueueKeys := by
  simp only [addKey]
  split_ifs with hk
  exacts [hk, by simp]

lemma Kept.addKey {threadID : ℕ} (h : Kept threadID own) : Kept threadID (own.addKey key) where
  empty k hk := by
    refine h.empty k fun hmem => hk ?_
    simp only [DtLocal.addKey]
    split_ifs
    exacts [hmem, List.mem_append_left _ hmem]
  fits k item hitem := { h.fits k item hitem with }

lemma Kept.setQueue {threadID : ℕ} (h : Kept threadID own) (hkey : key ∈ own.dtQueueKeys)
    (hqueue : ∀ item ∈ queue, Fits threadID own key item) :
    Kept threadID (own.setQueue key queue) where
  empty k hk := by
    have hne : k ≠ key := fun heq => hk (heq ▸ hkey)
    exact (update_of_ne hne _ _).trans (h.empty k hk)
  fits := (forall_update_iff _ fun k queue' => ∀ item ∈ queue',
      Fits threadID (own.setQueue key queue) k item).mpr
    ⟨fun item hitem => { hqueue item hitem with }, fun k _ item hitem =>
      { h.fits k item hitem with }⟩

lemma setQueue_setQueue (queue' : List InterestQueueItem) :
    (own.setQueue key queue).setQueue key queue' = own.setQueue key queue' := by
  simp only [setQueue, update_idem]

lemma noteEligible_setQueue (p : Str) :
    noteLocalPrefixEligibleForFace (own.setQueue key queue) face p
      = (noteLocalPrefixEligibleForFace own face p).setQueue key queue := rfl

end Queues

section Operations

variable {n threadID : ℕ} {others : Face → ℕ → ℤ} {rest : Str → ℕ} {view : DtView}
  {key : Str} {face : Face} {item : InterestQueueItem} {todo : List InterestQueueItem}

lemma Ledger.congr {pending pending' : Face → ℤ} {shared : DtShared}
    (h : Ledger threadID others pending shared) (heq : ∀ f, pending f = pending' f) :
    Ledger threadID others pending' shared :=
  { h with demand := fun f => (h.demand f).trans (heq f) }

/-- The queue of a prefix is replaced.  The ledger and the length of the prefix have followed, and
more prefixes may be looked through. -/
lemma Accounts.requeue {shared shared' : DtShared} {own : DtLocal} {pending : Face → ℤ}
    (h : Accounts threadID others rest ⟨shared, own⟩) (hkey : key ∈ own.dtQueueKeys)
    (own' : DtLocal) (queue : List InterestQueueItem)
    (hown : own'.dtQueueKeys = own.dtQueueKeys ∧ own'.dtQueuesByPrefix = own.dtQueuesByPrefix)
    (hfits : ∀ k item, Fits threadID own k item → Fits threadID own' k item)
    (hqueue : ∀ item ∈ queue, Fits threadID own' key item)
    (hledger : Ledger threadID others pending shared')
    (hpending : ∀ f, pending f + (own.dtQueuesByPrefix key).countP (·.assignedFace = f)
      = pendingOn own f + queue.countP (·.assignedFace = f))
    (hlength : shared'.dtGlobalPrefixQueueByPrefix
      = update shared.dtGlobalPrefixQueueByPrefix key (rest key + queue.length)) :
    Accounts threadID others rest ⟨shared', own'.setQueue key queue⟩ := by
  obtain ⟨hkeys, hqueues⟩ := hown
  refine ⟨hledger.congr fun f => ?_, fun p => ?_, ?_⟩
  · have hset := pendingOn_setQueue (hkeys ▸ hkey) queue f
    have hsame : pendingOn own' f = pendingOn own f := by rw [pendingOn, hkeys, hqueues, pendingOn]
    have hf := hpending f
    rw [hsame, hqueues] at hset
    dsimp only
    omega
  · rw [hlength, setQueue, hqueues]
    dsimp only
    rcases eq_or_ne p key with rfl | hp
    · rw [update_self, update_self]
    · rw [update_of_ne hp, update_of_ne hp]
      exact h.length p
  · refine Kept.setQueue ⟨?_, fun k item hitem => ?_⟩ (hkeys ▸ hkey) hqueue
    · rw [hkeys, hqueues]
      exact h.kept.empty
    · rw [hqueues] at hitem
      exact hfits k item (h.kept.fits k item hitem)

section

variable (h : Accounts threadID others rest view)
include h

/-- `enqueueLocalDtInterest` keeps the accounts. -/
lemma Accounts.enqueue (hthread : threadID < n)
    (howned : item.ownerThreadID = threadID) (hface : item.assignedFace ≠ 0) :
    Accounts threadID others rest (enqueueLocalDtInterest n threadID view key item) := by
  have hlength := h.length key
  obtain ⟨hledger, hglobal⟩ := h.ledger.noteGlobal key 1 (by omega)
  have hadd : Accounts threadID others rest ⟨view.shared, view.own.addKey key⟩ :=
    ⟨h.ledger.congr fun f => by rw [pendingOn_addKey (h.kept.empty key)], h.length, h.kept.addKey⟩
  simp only [enqueueLocalDtInterest, if_pos hface, DtView.await]
  refine hadd.requeue mem_addKey (noteLocalPrefixEligibleForFace _ item.assignedFace key) _
    ⟨rfl, rfl⟩ (fun k i hi => hi.noteEligible item.assignedFace key) (fun i hi => ?_)
    (hledger.note hthread item.assignedFace 1 (by positivity)) (fun f => ?_) ?_
  · rcases List.mem_append.mp hi with hi | hi
    · exact (hadd.kept.fits key i hi).noteEligible item.assignedFace key
    · obtain rfl := List.mem_singleton.mp hi
      exact ⟨howned, hface, mem_dtLocalFacePrefixes_note.mpr (.inr ⟨rfl, rfl⟩)⟩
  · rw [pendingOn_addKey (h.kept.empty key), List.countP_append, List.countP_singleton]
    simp only [decide_eq_true_eq, DtLocal.addKey]
    split_ifs <;> omega
  · rw [noteThreadDemand_global, hglobal, hlength, List.length_append]
    push_cast
    rw [add_assoc]
    rfl

/-! ### Dequeueing -/

omit h in
/-- The search fails only if the thread has no item for the face at all: every item's prefix
is looked through. -/
lemma findDtInterest_eq_none_iff {own : DtLocal} (h : Kept threadID own) :
    findDtInterest own threadID face = none
      ↔ ∀ key, ∀ item ∈ own.dtQueuesByPrefix key, item.assignedFace ≠ face := by
  simp only [findDtInterest, List.findSome?_eq_none_iff, Option.map_eq_none_iff,
    List.find?_eq_none, isFor_iff, mem_rrOrder]
  refine ⟨fun hnone key item hitem hface => ?_, fun hall idx _ item hitem hfor => ?_⟩
  · have hfits := h.fits key item hitem
    have helig := hfits.eligible
    rw [hface] at helig
    obtain ⟨idx, hidx, hget⟩ := List.mem_iff_getElem.mp helig
    have hkey : (own.dtLocalFacePrefixes face).getD idx [] = key := by
      rw [List.getD_eq_getElem _ _ hidx, hget]
    exact hnone idx hidx item (hkey ▸ hitem) ⟨hfits.owned, hface⟩
  · exact hall _ item hitem hfor.2

omit h in
/-- A thread with nothing pending on a face has no item for it. -/
lemma pendingOn_eq_zero_iff {own : DtLocal} (h : Kept threadID own) :
    pendingOn own face = 0
      ↔ ∀ key, ∀ item ∈ own.dtQueuesByPrefix key, item.assignedFace ≠ face := by
  simp only [pendingOn, sum_eq_zero_iff, List.mem_toFinset, List.countP_eq_zero,
    decide_eq_true_eq]
  refine ⟨fun hnone key item hitem => ?_, fun hall key _ item hitem => hall key item hitem⟩
  by_cases hkey : key ∈ own.dtQueueKeys
  · exact hnone key hkey item hitem
  · rw [h.empty key hkey] at hitem
    exact absurd hitem List.not_mem_nil

/-- **`dequeueDtInterestForFaceRR` finds nothing exactly when nothing is demanded.** -/
lemma dequeue_eq_none_iff :
    (dequeueDtInterestForFaceRR n threadID view face).2 = none
      ↔ (view.shared.dtFaceControlByFace face).demandByThread threadID = 0 := by
  rw [h.ledger.demand, Nat.cast_eq_zero, pendingOn_eq_zero_iff h.kept,
    ← findDtInterest_eq_none_iff h.kept, dequeueDtInterestForFaceRR]
  cases findDtInterest view.own threadID face with
  | none => simp
  | some found => simp

/-- `dequeueDtInterestForFaceRR` keeps the accounts. -/
lemma Accounts.dequeue (hthread : threadID < n)
    (face : Face) :
    Accounts threadID others rest (dequeueDtInterestForFaceRR n threadID view face).1 := by
  unfold dequeueDtInterestForFaceRR
  cases hfound : findDtInterest view.own threadID face with
  | none => exact h
  | some found =>
    obtain ⟨idx, key, item⟩ := found
    have hfind := find?_of_findDtInterest hfound
    have hfor : item.assignedFace = face := (isFor_iff.mp (List.find?_some hfind)).2
    have hmem : item ∈ view.own.dtQueuesByPrefix key := List.mem_of_find?_eq_some hfind
    have hfits := h.kept.fits key item hmem
    have hkey : key ∈ view.own.dtQueueKeys := by
      by_contra hnot
      rw [h.kept.empty key hnot] at hmem
      exact absurd hmem List.not_mem_nil
    obtain ⟨a, l₁, l₂, -, hp, heq, herase⟩ :=
      List.exists_of_eraseP hmem (List.find?_some hfind)
    have ha : a.assignedFace = face := (isFor_iff.mp hp).2
    -- one item less for the face, and as many as before for every other
    have hcount : ∀ f, (view.own.dtQueuesByPrefix key).countP (·.assignedFace = f)
        = ((view.own.dtQueuesByPrefix key).eraseP (isFor threadID face)).countP
            (·.assignedFace = f) + if face = f then 1 else 0 := by
      intro f
      rw [herase, heq, List.countP_append, List.countP_append, List.countP_cons, add_assoc]
      simp only [ha, decide_eq_true_eq]
    have hlength := h.length key
    have hlen : (view.own.dtQueuesByPrefix key).length
        = ((view.own.dtQueuesByPrefix key).eraseP (isFor threadID face)).length + 1 := by
      rw [herase, heq]
      simp only [List.length_append, List.length_cons]
      omega
    have hone := (hcount face).ge.trans (countP_le_pendingOn hkey face)
    rw [if_pos rfl] at hone
    obtain ⟨hledger, hglobal⟩ := h.ledger.noteGlobal key (-1) (by omega)
    simp only [if_pos hfits.assigned]
    refine h.requeue hkey
      { view.own with prefixRR := update view.own.prefixRR face (idx + 1) } _ ⟨rfl, rfl⟩
      (fun k i hi => { hi with })
      (fun i hi => { h.kept.fits key i (List.mem_of_mem_eraseP hi) with })
      (hledger.note hthread item.assignedFace (-1) (by rw [hfor]; omega)) (fun f => ?_) ?_
    · have hf := hcount f
      rw [hfor]
      split_ifs at hf ⊢ <;> omega
    · rw [noteThreadDemand_global, hglobal]
      congr 1
      omega

/-- What keeps the control state of a face sound and its demands as they are keeps the
accounts. -/
lemma Accounts.onFace
    (face : Face) (f : DtFaceControlState → DtFaceControlState)
    (hsound : Sound (f (view.shared.dtFaceControlByFace face)))
    (hdemand : (f (view.shared.dtFaceControlByFace face)).demandByThread
      = (view.shared.dtFaceControlByFace face).demandByThread) :
    Accounts threadID others rest { view with shared := view.shared.onFace face f } := by
  have hsame : ∀ g, ((view.shared.onFace face f).dtFaceControlByFace g).demandByThread
      = (view.shared.dtFaceControlByFace g).demandByThread := by
    intro g
    rcases eq_or_ne g face with rfl | hne
    · simpa [DtShared.onFace] using hdemand
    · simp [DtShared.onFace, hne]
  refine ⟨⟨?_, h.ledger.clamps, fun g => ?_, fun g t ht => ?_⟩, h.length, h.kept⟩
  · exact (forall_update_iff _ fun _ control => Sound control).mpr
      ⟨hsound, fun g _ => h.ledger.sound g⟩
  · rw [hsame]
    exact h.ledger.demand g
  · rw [hsame]
    exact h.ledger.demand_others g t ht

/-- `drainDtInterestForFace` keeps the accounts. -/
lemma Accounts.drain (hthread : threadID < n)
    {blocked : Bool} :
    Accounts threadID others rest (drainDtInterestForFace n threadID view face blocked).1 := by
  have htake := h.onFace face
    (fun control => (takeDtThreadBudget n control threadID dtSchedulerMaxSendPerTick).1)
    ((h.ledger.sound face).takeBudget n threadID _) (demand_takeDtThreadBudget _)
  exact (drain_rule (O := fun _ => True)
    (fun _ h => ⟨h.dequeue hthread face, fun _ _ => trivial⟩) view h htake blocked).1

/-! ### Reassignment -/

omit h in
/-- An item in the queue is assigned to another face, and the demands follow. -/
lemma Accounts.move {done : List InterestQueueItem} (survivors : List Face) {newFace : Face}
    (h : Accounts threadID others rest
      ⟨view.shared, view.own.setQueue key (done ++ item :: todo)⟩) (hthread : threadID < n)
    (hkey : key ∈ view.own.dtQueueKeys) (hnew : newFace ≠ 0) :
    Accounts threadID others rest
      (let moved := DtView.await n threadID { view with
          shared := view.shared.noteThreadDemand n item.assignedFace threadID (-1) } newFace key
       ⟨moved.shared, moved.own.setQueue key (done
          ++ { item with candidateFaces := survivors, assignedFace := newFace } :: todo)⟩) := by
  set moved : InterestQueueItem :=
    { item with candidateFaces := survivors, assignedFace := newFace } with hmoved
  have hself : (view.own.setQueue key (done ++ item :: todo)).dtQueuesByPrefix key
      = done ++ item :: todo := update_self _ _ _
  have hitem := countP_le_pendingOn (show key ∈ (view.own.setQueue key
    (done ++ item :: todo)).dtQueueKeys from hkey) item.assignedFace
  simp only [hself, List.countP_append, List.countP_cons, decide_true, if_true] at hitem
  have hdown := h.ledger.note hthread item.assignedFace (-1) (by dsimp only; omega)
  have hup := hdown.note hthread newFace 1 (by dsimp only; split_ifs <;> omega)
  have hset := h.requeue hkey (noteLocalPrefixEligibleForFace
      (view.own.setQueue key (done ++ item :: todo)) newFace key) (done ++ moved :: todo)
    ⟨rfl, rfl⟩ (fun k i hi => hi.noteEligible newFace key) (fun i hi => ?_) hup (fun f => ?_) ?_
  · rw [noteEligible_setQueue, setQueue_setQueue] at hset
    exact hset
  · have hcases : i ∈ done ++ item :: todo ∨ i = moved := by
      simp only [List.mem_append, List.mem_cons] at hi ⊢
      tauto
    have hfits := h.kept.fits key
    simp only [hself] at hfits
    rcases hcases with hold | rfl
    · exact (hfits i hold).noteEligible newFace key
    · exact ⟨(hfits item (by simp)).owned, hnew, mem_dtLocalFacePrefixes_note.mpr (.inr ⟨rfl, rfl⟩)⟩
  · have hassigned : moved.assignedFace = newFace := rfl
    simp only [hself, List.countP_append, List.countP_cons, decide_eq_true_eq, hassigned]
    push_cast
    split_ifs <;> omega
  · have hlength := h.length key
    simp only [hself, List.length_append, List.length_cons] at hlength ⊢
    rw [noteThreadDemand_global, noteThreadDemand_global, ← hlength, update_eq_self]

omit h in
/-- A step of the reassignment keeps the keys of the queues. -/
lemma dtQueueKeys_reassignItem (view : DtView) (key : Str) (item : InterestQueueItem)
    (n threadID : ℕ) (blockedFace : Face) (dtValidFaces : List Face) :
    (reassignItem n threadID blockedFace dtValidFaces key view item).1.own.dtQueueKeys
      = view.own.dtQueueKeys := by
  simp only [reassignItem]
  split_ifs <;> rfl

omit h in
lemma Accounts.reassignItem {done : List InterestQueueItem} (h : Accounts threadID others rest
      ⟨view.shared, view.own.setQueue key (done ++ item :: todo)⟩) (hthread : threadID < n)
    (hkey : key ∈ view.own.dtQueueKeys) (blockedFace : Face) (dtValidFaces : List Face) :
    Accounts threadID others rest
      (let r := Mars.reassignItem n threadID blockedFace dtValidFaces key view item
       ⟨r.1.shared, r.1.own.setQueue key (done ++ r.2 :: todo)⟩) := by
  by_cases hfor : isFor threadID blockedFace item
  swap
  · simp only [Mars.reassignItem, if_neg hfor]
    exact h
  by_cases hnone : survivorsOf blockedFace dtValidFaces item = []
  · simp only [Mars.reassignItem, if_pos hfor, if_pos hnone]
    exact h
  have hchosen : Accounts threadID others rest
      ⟨(view.selectFace key (survivorsOf blockedFace dtValidFaces item)).1.shared,
        (view.selectFace key (survivorsOf blockedFace dtValidFaces item)).1.own.setQueue key
          (done ++ item :: todo)⟩ :=
    ⟨h.ledger, h.length, { h.kept with fits := fun k i hi => { h.kept.fits k i hi with } }⟩
  by_cases hzero : (view.selectFace key (survivorsOf blockedFace dtValidFaces item)).2 = 0
  · simp only [Mars.reassignItem, if_pos hfor, if_neg hnone, if_pos hzero]
    exact hchosen
  · simp only [Mars.reassignItem, if_pos hfor, if_neg hnone, if_neg hzero]
    have hmove :=
      hchosen.move (survivorsOf blockedFace dtValidFaces item) hthread hkey hzero
    rw [(isFor_iff.mp hfor).2] at hmove
    exact hmove

omit h in
/-- The loop over a queue: `done` are the items it has passed. -/
lemma Accounts.reassignItems (view : DtView) (done : List InterestQueueItem)
    (h : Accounts threadID others rest ⟨view.shared, view.own.setQueue key (done ++ todo)⟩)
    (hthread : threadID < n) (hkey : key ∈ view.own.dtQueueKeys) (blockedFace : Face)
    (dtValidFaces : List Face) :
    Accounts threadID others rest
      (let r := Mars.reassignItems n threadID blockedFace dtValidFaces key todo view
       ⟨r.1.shared, r.1.own.setQueue key (done ++ r.2)⟩) := by
  induction todo generalizing view done with
  | nil => exact h
  | cons item todo ih =>
    have hkeys := dtQueueKeys_reassignItem view key item n threadID blockedFace dtValidFaces
    have hfirst := h.reassignItem hthread hkey blockedFace dtValidFaces
    set r := Mars.reassignItem n threadID blockedFace dtValidFaces key view item with hr
    have hsplit : done ++ r.2 :: todo = (done ++ [r.2]) ++ todo := by simp
    dsimp only at hfirst
    rw [hsplit] at hfirst
    have hrest := ih r.1 (done ++ [r.2]) hfirst (hkeys ▸ hkey)
    dsimp only at hrest
    rwa [List.append_assoc] at hrest

lemma Accounts.reassignPrefix (hthread : threadID < n)
    {blockedFace : Face} {dtValidFaces : Str → List Face} :
    Accounts threadID others rest
      (Mars.reassignPrefix n threadID blockedFace dtValidFaces view key) := by
  have hsame : view.own.setQueue key ([] ++ view.own.dtQueuesByPrefix key) = view.own := by
    simp [setQueue]
  by_cases hkey : key ∈ view.own.dtQueueKeys
  · have h' : Accounts threadID others rest
        ⟨view.shared, view.own.setQueue key ([] ++ view.own.dtQueuesByPrefix key)⟩ := by
      rw [hsame]
      exact h
    exact Accounts.reassignItems view [] h' hthread hkey blockedFace (dtValidFaces key)
  · -- there is no queue to go through
    rw [List.nil_append, h.kept.empty key hkey] at hsame
    rw [Mars.reassignPrefix, h.kept.empty key hkey, Mars.reassignItems, hsame]
    exact h

/-- `reassignLocalDtInterestsFromFailedFace` keeps the accounts. -/
lemma Accounts.reassign (hthread : threadID < n)
    {blockedFace : Face} {dtValidFaces : Str → List Face} {wish : List Str} :
    Accounts threadID others rest
      (reassignLocalDtInterestsFromFailedFace n threadID view blockedFace dtValidFaces wish) :=
  reassign_rule (fun _ _ h => h.reassignPrefix hthread) h

end

end Operations

/-! ### All threads -/

/-- The accounts of all threads of a node: those of each thread, with the others as they
are. -/
structure ExactNode (n : ℕ) (node : DtNode) : Prop where
  thread : ∀ t < n, Accounts t
    (fun f u => (node.shared.dtFaceControlByFace f).demandByThread u)
    (fun key => ∑ u ∈ (range n).erase t, ((node.threads u).dtQueuesByPrefix key).length)
    (node.view t)
  sound : ∀ f, Sound (node.shared.dtFaceControlByFace f)
  clamps : node.shared.clamps = 0
  length : ∀ key, node.shared.dtGlobalPrefixQueueByPrefix key
    = ∑ u ∈ range n, ((node.threads u).dtQueuesByPrefix key).length

lemma exactNode_new {n : ℕ} : ExactNode n .new where
  thread _ _ :=
    { ledger :=
        { sound := fun _ => sound_new
          clamps := rfl
          demand := fun _ => rfl
          demand_others := fun _ _ _ => rfl }
      length := fun _ => by simp [DtNode.view, DtNode.new, DtShared.new, DtLocal.new]
      kept :=
        { empty := fun _ _ => rfl
          fits := fun _ _ hitem => absurd hitem List.not_mem_nil } }
  sound _ := sound_new
  clamps := rfl
  length _ := by simp [DtNode.new, DtShared.new, DtLocal.new]

variable {n : ℕ} {node : DtNode} {threadID : ℕ}

/-- **A step of one thread** that keeps its own accounts keeps those of all. -/
lemma ExactNode.write (h : ExactNode n node) (hthread : threadID < n) {view : DtView}
    (hview : Accounts threadID
      (fun f u => (node.shared.dtFaceControlByFace f).demandByThread u)
      (fun key => ∑ u ∈ (range n).erase threadID, ((node.threads u).dtQueuesByPrefix key).length)
      view) :
    ExactNode n (node.write threadID view) := by
  have hmem : threadID ∈ range n := mem_range.mpr hthread
  have hthreads : ∀ u, u ≠ threadID → (node.write threadID view).threads u = node.threads u :=
    fun u hu => update_of_ne hu _ _
  have hself : (node.write threadID view).threads threadID = view.own := update_self _ _ _
  have hlength : ∀ key, view.shared.dtGlobalPrefixQueueByPrefix key
      = ∑ u ∈ range n, (((node.write threadID view).threads u).dtQueuesByPrefix key).length := by
    intro key
    have hrest : ∑ u ∈ (range n).erase threadID,
          (((node.write threadID view).threads u).dtQueuesByPrefix key).length
        = ∑ u ∈ (range n).erase threadID, ((node.threads u).dtQueuesByPrefix key).length :=
      sum_congr rfl fun u hu => by rw [hthreads u (ne_of_mem_erase hu)]
    rw [hview.length key, ← add_sum_erase _ _ hmem, hself, hrest]
    push_cast
    ring
  refine ⟨fun t ht => ?_, hview.ledger.sound, hview.ledger.clamps, hlength⟩
  have hsplit : ∀ key, view.shared.dtGlobalPrefixQueueByPrefix key
      = (∑ u ∈ (range n).erase t,
          (((node.write threadID view).threads u).dtQueuesByPrefix key).length : ℕ)
        + (((node.write threadID view).threads t).dtQueuesByPrefix key).length := by
    intro key
    rw [hlength key, ← add_sum_erase _ _ (mem_range.mpr ht)]
    push_cast
    ring
  have hown : (∀ f, (view.shared.dtFaceControlByFace f).demandByThread t
      = pendingOn ((node.write threadID view).threads t) f)
        ∧ Kept t ((node.write threadID view).threads t) := by
    rcases eq_or_ne t threadID with rfl | hne
    · rw [hself]
      exact ⟨hview.ledger.demand, hview.kept⟩
    · have hother := h.thread t ht
      rw [hthreads t hne]
      exact ⟨fun f => (hview.ledger.demand_others f t hne).trans (hother.ledger.demand f),
        hother.kept⟩
  exact ⟨⟨hview.ledger.sound, hview.ledger.clamps, hown.1, fun _ _ _ => rfl⟩, hsplit, hown.2⟩

/-- A step on the control state of a face that leaves the demands alone. -/
lemma ExactNode.control (h : ExactNode n node) {face : Face} {e : DtControlEvent}
    (he : e.isDemand = false) : ExactNode n (dtQueueStep n node (.control face e)) := by
  have hsound : Sound (dtControlStep n (node.shared.dtFaceControlByFace face) e) :=
    sound_step (h.sound face)
  have hthread : ∀ t < n, Accounts t
      (fun f u => (node.shared.dtFaceControlByFace f).demandByThread u)
      (fun key => ∑ u ∈ (range n).erase t, ((node.threads u).dtQueuesByPrefix key).length)
      ⟨node.shared.onFace face fun control => dtControlStep n control e, node.threads t⟩ :=
    fun t ht => (h.thread t ht).onFace face _ hsound (demand_dtControlStep he)
  refine ⟨fun t ht => ?_, ?_, h.clamps, h.length⟩
  · have ht' := hthread t ht
    exact ⟨{ ht'.ledger with demand_others := fun _ _ _ => rfl }, ht'.length, ht'.kept⟩
  · exact (forall_update_iff _ fun _ control => Sound control).mpr ⟨hsound, fun f _ => h.sound f⟩

/-- The steps there are: threads have ids below the number of threads, an Interest is enqueued
with a face, and only threads change demands. -/
def DtQueueEvent.Admissible (n : ℕ) : DtQueueEvent → Prop
  | .enqueue threadID _ _ _ _ _ assignedFace => threadID < n ∧ assignedFace ≠ 0
  | .dequeue threadID _ => threadID < n
  | .drain threadID _ _ => threadID < n
  | .reassign threadID _ _ _ => threadID < n
  | .control _ e => e.isDemand = false

/-- **One step keeps the accounts of all threads.** -/
lemma exactNode_step (h : ExactNode n node) {e : DtQueueEvent} (he : e.Admissible n) :
    ExactNode n (dtQueueStep n node e) := by
  cases e with
  | enqueue threadID key packet pitEntry inFace candidateFaces assignedFace =>
    exact h.write he.1 ((h.thread threadID he.1).enqueue he.1 rfl he.2)
  | dequeue threadID face => exact h.write he ((h.thread threadID he).dequeue he face)
  | drain threadID face blocked => exact h.write he ((h.thread threadID he).drain he)
  | reassign threadID blockedFace dtValidFaces wish =>
    exact h.write he ((h.thread threadID he).reassign he)
  | control face e => exact h.control he

/-- The four accounts of a node agree. -/
structure AccountsExact (n : ℕ) (node : DtNode) : Prop where
  demand : ∀ t < n, ∀ f,
    (node.shared.dtFaceControlByFace f).demandByThread t = pendingOn (node.threads t) f
  length : ∀ key, node.shared.dtGlobalPrefixQueueByPrefix key
    = ∑ t ∈ range n, ((node.threads t).dtQueuesByPrefix key).length
  clamps : node.shared.clamps = 0
  budget : ∀ t < n, ∀ f, (node.shared.dtFaceControlByFace f).demandByThread t = 0 →
    (node.shared.dtFaceControlByFace f).budgetByThread t = 0
  dequeue : ∀ t < n, ∀ f, (dequeueDtInterestForFaceRR n t (node.view t) f).2 = none
    ↔ (node.shared.dtFaceControlByFace f).demandByThread t = 0

/-- **The accounts of the DT queues are exact** after every interleaving of the threads' steps,
of the scheduler and of the rate controller. -/
theorem dt_accounts_exact (n : ℕ) (es : List DtQueueEvent) (h : ∀ e ∈ es, e.Admissible n) :
    AccountsExact n (dtQueueRun n es) := by
  have hguard : Steps.Guarded (dtQueueStep n) (fun _ e => e.Admissible n) .new es :=
    Steps.guarded_of_forall_mem (fun e he _ => h e he) _
  have hnode : ExactNode n (dtQueueRun n es) :=
    Steps.guarded_invariant (I := ExactNode n) (fun _ _ hnode he => exactNode_step hnode he)
      exactNode_new hguard
  exact
    { demand := fun t ht f => (hnode.thread t ht).ledger.demand f
      length := hnode.length
      clamps := hnode.clamps
      budget := fun t _ f hzero => (hnode.sound f).budget_idle t hzero.le
      dequeue := fun t ht f => dequeue_eq_none_iff (hnode.thread t ht) }

/-- Two threads queue Interests for face `1`, which is served once and then fails: thread `0`
moves the item it has left to face `2`. -/
def twoThreads : List DtQueueEvent :=
  [.enqueue 0 ['p'] (plainInterest [['p'], ['1']] 1) 0 9 [1, 2] 1,
    .enqueue 1 ['p'] (plainInterest [['p'], ['2']] 2) 1 9 [1, 2] 1,
    .enqueue 0 ['q'] (plainInterest [['q'], ['3']] 3) 2 9 [1, 2] 1, .control 1 (.activate 0),
    .control 1 (.allocate 4000000 false), .drain 0 1 false, .reassign 0 1 (fun _ => []) [['q']]]

theorem dt_accounts_exact_two_threads :
    (∀ e ∈ twoThreads, e.Admissible 2) ∧ AccountsExact 2 (dtQueueRun 2 twoThreads)
      ∧ pendingOn ((dtQueueRun 2 twoThreads).threads 0) 1 = 0
      ∧ pendingOn ((dtQueueRun 2 twoThreads).threads 0) 2 = 1
      ∧ pendingOn ((dtQueueRun 2 twoThreads).threads 1) 1 = 1 := by
  have hadm : ∀ e ∈ twoThreads, e.Admissible 2 := by
    simp [twoThreads, DtQueueEvent.Admissible, DtControlEvent.isDemand]
  exact ⟨hadm, dt_accounts_exact 2 twoThreads hadm, by decide +kernel⟩

end Mars
