import Mars.Dt.Forwarding
import Mathlib.Data.List.GetD

/-!
What the operations of the DT phase do to the queued items.

* `AllItems P`: every item of a thread's queues meets `P`, which may depend on the prefix it is
  queued for;
* `AllItems.enqueue`, `AllItems.dequeue`, `AllItems.drainFaces`, `AllItems.reassign`: what has to
  be shown for the queues to keep it, and what it says of the items that are sent;
* `NodeItems.interest`, `NodeItems.tick`, `NodeItems.step`: the same for the handlers of a node.
-/

namespace Mars

open Function List

variable {P : Str → InterestQueueItem → Prop} {n threadID : ℕ} {own : DtLocal} {view : DtView}
  {key : Str} {face : Face} {item : InterestQueueItem}

/-! ### The queues of a thread -/

/-- Every queued item meets `P`. -/
def AllItems (P : Str → InterestQueueItem → Prop) (own : DtLocal) : Prop :=
  ∀ key, ∀ item ∈ own.dtQueuesByPrefix key, P key item

lemma allItems_new : AllItems P .new := fun _ _ hitem => absurd hitem not_mem_nil

lemma AllItems.setQueue (h : AllItems P own) {queue : List InterestQueueItem}
    (hqueue : ∀ item ∈ queue, P key item) : AllItems P (own.setQueue key queue) :=
  (forall_update_iff _ fun k queue => ∀ item ∈ queue, P k item).mpr ⟨hqueue, fun k _ => h k⟩

namespace AllItems

variable (h : AllItems P view.own)
include h

lemma enqueue (hitem : P key item) :
    AllItems P (enqueueLocalDtInterest n threadID view key item).own := by
  have hset : AllItems P ((view.own.addKey key).setQueue key
      (view.own.dtQueuesByPrefix key ++ [item])) := by
    have hadd : AllItems P (view.own.addKey key) := h
    refine hadd.setQueue fun i hi => ?_
    rcases mem_append.mp hi with hi | hi
    · exact h key i hi
    · exact mem_singleton.mp hi ▸ hitem
  simp only [enqueueLocalDtInterest]
  split_ifs <;> exact hset

/-- An item that is dequeued was in the queue of some prefix, assigned to the face. -/
lemma dequeue :
    AllItems P (dequeueDtInterestForFaceRR n threadID view face).1.own
      ∧ ∀ item ∈ (dequeueDtInterestForFaceRR n threadID view face).2,
        item.assignedFace = face ∧ ∃ key, P key item := by
  unfold dequeueDtInterestForFaceRR
  cases hfound : findDtInterest view.own threadID face with
  | none => exact ⟨h, by simp⟩
  | some found =>
    obtain ⟨idx, key, item⟩ := found
    have hfind := find?_of_findDtInterest hfound
    refine ⟨h.setQueue fun j hj => h _ j (mem_of_mem_eraseP hj), fun it hit => ?_⟩
    obtain rfl := Option.some.inj hit
    exact ⟨(isFor_iff.mp (find?_some hfind)).2, _, h _ _ (mem_of_find?_eq_some hfind)⟩

lemma drain {blocked : Bool} :
    AllItems P (drainDtInterestForFace n threadID view face blocked).1.own
      ∧ ∀ item ∈ (drainDtInterestForFace n threadID view face blocked).2,
        item.assignedFace = face ∧ ∃ key, P key item :=
  drain_rule (I := fun view => AllItems P view.own) (fun _ h => h.dequeue) view h
    h blocked

/-- An item is sent on the face it is assigned to. -/
lemma drainFaces {snapshot : DtFailureSnapshot} {visits : ℕ} :
    AllItems P (Mars.drainFaces n threadID snapshot visits view).1.own
      ∧ ∀ sent ∈ (Mars.drainFaces n threadID snapshot visits view).2,
        sent.2.assignedFace = sent.1 ∧ ∃ key, P key sent.2 := by
  induction visits generalizing view with
  | zero => exact ⟨h, by simp [Mars.drainFaces]⟩
  | succ visits ih =>
    simp only [Mars.drainFaces]
    set face := view.own.dtLocalFaceOrder.getD
      (view.own.dtLocalFaceRR % view.own.dtLocalFaceOrder.length) 0 with hface
    set turned : DtView := { view with own :=
      { view.own with dtLocalFaceRR := view.own.dtLocalFaceRR + 1 } } with hturned
    have hown : AllItems P turned.own := h
    obtain ⟨hdrained, hsent⟩ :=
      hown.drain
    obtain ⟨hend, hrest⟩ := ih hdrained
    refine ⟨hend, fun sent hmem => ?_⟩
    rcases mem_append.mp hmem with hmem | hmem
    · obtain ⟨it, hit, rfl⟩ := mem_map.mp hmem
      exact hsent it hit
    · exact hrest sent hmem

end AllItems

/-! ### The assignment of a face -/

/-- The round robin selects a candidate. -/
lemma selectDtAssignedFaceWRR_mem (shared : DtShared) (credits : Face → ℚ)
    (candidateFaces : List Face) :
    (selectDtAssignedFaceWRR shared credits candidateFaces).2 = 0
      ∨ (selectDtAssignedFaceWRR shared credits candidateFaces).2 ∈ candidateFaces := by
  have hloop : ∀ (faces : List Face) (round : WrrRound),
      (faces.foldl (WrrRound.visit shared) round).selected = round.selected
        ∨ (faces.foldl (WrrRound.visit shared) round).selected ∈ faces := by
    intro faces
    induction faces with
    | nil => exact fun _ => .inl rfl
    | cons f faces ih =>
      intro round
      rw [foldl_cons]
      rcases ih (round.visit shared f) with h | h
      · rw [h]
        simp only [WrrRound.visit]
        split_ifs
        · exact .inr mem_cons_self
        · exact .inl rfl
      · exact .inr (mem_cons_of_mem f h)
  unfold selectDtAssignedFaceWRR
  split_ifs with hnil
  · exact .inl rfl
  · rcases hloop candidateFaces ⟨credits, 0, 0, 0⟩ with h | h
    · exact .inl (by simp [h])
    · dsimp only
      split
      · exact .inl rfl
      · exact .inr h

/-! ### Reassignment -/

lemma reassignItem_queues (blockedFace : Face) (dtValidFaces : List Face) :
    (reassignItem n threadID blockedFace dtValidFaces key view item).1.own.dtQueuesByPrefix
      = view.own.dtQueuesByPrefix := by
  simp only [reassignItem]
  split_ifs <;> rfl

/-- An item stays as it is, or moves to one of the surviving faces. -/
lemma reassignItem_cases (n threadID : ℕ) (blockedFace : Face) (dtValidFaces : List Face)
    (key : Str) (view : DtView) (item : InterestQueueItem) :
    (reassignItem n threadID blockedFace dtValidFaces key view item).2 = item
      ∨ ∃ newFace ∈ survivorsOf blockedFace dtValidFaces item,
        (reassignItem n threadID blockedFace dtValidFaces key view item).2
          = { item with
              candidateFaces := survivorsOf blockedFace dtValidFaces item
              assignedFace := newFace } := by
  simp only [reassignItem]
  split_ifs with hfor hnone hzero
  · exact .inl rfl
  · exact .inl rfl
  · have hmem := selectDtAssignedFaceWRR_mem view.shared (view.own.dtAssignByPrefix key)
      (survivorsOf blockedFace dtValidFaces item)
    exact .inr ⟨_, hmem.resolve_left hzero, rfl⟩
  · exact .inl rfl

section Reassign

variable {blockedFace : Face} {dtValidFaces : Str → List Face}

/-- `P` goes along when an item moves. -/
def MovesAlong (P : Str → InterestQueueItem → Prop) (blockedFace : Face)
    (dtValidFaces : Str → List Face) : Prop :=
  ∀ key item, P key item → ∀ newFace ∈ survivorsOf blockedFace (dtValidFaces key) item,
    P key { item with
      candidateFaces := survivorsOf blockedFace (dtValidFaces key) item
      assignedFace := newFace }

lemma reassignItems_queues (n threadID : ℕ) (blockedFace : Face) (valid : List Face) (key : Str)
    (queue : List InterestQueueItem) (view : DtView) :
    (reassignItems n threadID blockedFace valid key queue view).1.own.dtQueuesByPrefix
      = view.own.dtQueuesByPrefix := by
  induction queue generalizing view with
  | nil => rfl
  | cons item queue ih => exact (ih _).trans (reassignItem_queues blockedFace valid)

lemma reassignItems_spec (hmove : MovesAlong P blockedFace dtValidFaces) (n threadID : ℕ)
    (view : DtView) {queue : List InterestQueueItem} (hqueue : ∀ item ∈ queue, P key item) :
    ∀ item ∈ (reassignItems n threadID blockedFace (dtValidFaces key) key queue view).2,
      P key item := by
  induction queue generalizing view with
  | nil => simp [reassignItems]
  | cons item queue ih =>
    obtain ⟨hitem, hrest⟩ := forall_mem_cons.mp hqueue
    refine forall_mem_cons.mpr ⟨?_, ih _ hrest⟩
    rcases reassignItem_cases n threadID blockedFace (dtValidFaces key) key view item
      with h | ⟨newFace, hmem, h⟩
    · rw [h]
      exact hitem
    · rw [h]
      exact hmove key item hitem newFace hmem

lemma AllItems.reassignPrefix (h : AllItems P view.own)
    (hmove : MovesAlong P blockedFace dtValidFaces) :
    AllItems P (reassignPrefix n threadID blockedFace dtValidFaces view key).own := by
  have hmoved : AllItems P (reassignItems n threadID blockedFace (dtValidFaces key) key
      (view.own.dtQueuesByPrefix key) view).1.own := by
    intro k item hitem
    rw [reassignItems_queues] at hitem
    exact h k item hitem
  exact hmoved.setQueue (reassignItems_spec hmove n threadID view (h key))

lemma AllItems.reassign (h : AllItems P view.own) (n threadID : ℕ)
    (hmove : MovesAlong P blockedFace dtValidFaces) (wish : List Str) :
    AllItems P (reassignLocalDtInterestsFromFailedFace n threadID view blockedFace dtValidFaces
      wish).own :=
  reassign_rule (I := fun view => AllItems P view.own)
    (fun _ _ h => h.reassignPrefix hmove) h

end Reassign

/-! ### The handlers of a node -/

section Node

variable {P : ℕ → Str → InterestQueueItem → Prop} {cfg : NodeConfig} {node : Node}
  {packet : FwInterest} {pitEntry : ℕ} {inFace : Face} {info : PathDiscoveryInfo}
  {faces : List Face} {now : Time} {wish : List Str} {snapshot : DtFailureSnapshot}

/-- Every item queued at a node meets `P`, which may depend on the thread. -/
def NodeItems (P : ℕ → Str → InterestQueueItem → Prop) (node : Node) : Prop :=
  ∀ t, AllItems (P t) (node.dt.threads t)

lemma nodeItems_new : NodeItems P .new := fun _ => allItems_new

/-- A step of one thread. -/
lemma NodeItems.write (h : NodeItems P node) (hview : AllItems (P threadID) view.own) :
    NodeItems P { node with dt := node.dt.write threadID view } := by
  intro t
  rcases eq_or_ne t threadID with rfl | hne
  · simpa [DtNode.write] using hview
  · simpa [DtNode.write, hne] using h t

@[simp] lemma applySnapshot_failure :
    (applySnapshot cfg threadID node snapshot wish).failure = node.failure := by
  simp only [applySnapshot]
  split_ifs <;> rfl

@[simp] lemma applySnapshot_pd (threadID : ℕ) (snapshot : DtFailureSnapshot) (wish : List Str) :
    (applySnapshot cfg threadID node snapshot wish).pd = node.pd := by
  simp only [applySnapshot]
  split_ifs <;> rfl

lemma sync_pd (cfg : NodeConfig) (node : Node) (threadID : ℕ) (now : Time) (wish : List Str) :
    (syncDtFailureState cfg threadID node now wish).1.pd = node.pd := by
  rw [syncDtFailureState, applySnapshot_pd]

lemma NodeItems.applySnapshot (h : NodeItems P node) (hmove : snapshot.active = true →
      MovesAlong (P threadID) snapshot.failedFace fun key => (node.pd key).dtValidFaces) :
    NodeItems P (applySnapshot cfg threadID node snapshot wish) := by
  simp only [Mars.applySnapshot]
  split_ifs with hnew
  · have hown : AllItems (P threadID) (node.dt.view threadID).own := h threadID
    have hmoved := hown.reassign cfg.numThreads threadID (hmove hnew.1) wish
    exact h.write hmoved
  · exact h

lemma NodeItems.sync (h : NodeItems P node) (cfg : NodeConfig)
    (hmove : ∀ blocked, MovesAlong (P threadID) blocked fun key => (node.pd key).dtValidFaces)
    (now : Time) (wish : List Str) :
    NodeItems P (syncDtFailureState cfg threadID node now wish).1 := by
  have hsnapped : NodeItems P
      { node with failure := (dtFailureSnapshot cfg node.failure now).1 } := h
  exact hsnapped.applySnapshot (fun _ => hmove _)

/-- The fields of a prefix state that say how its DT Interests are routed. -/
structure SameRoute (info info' : PathDiscoveryInfo) : Prop where
  isNodeConverged : info'.isNodeConverged = info.isNodeConverged
  dtValidFaces : info'.dtValidFaces = info.dtValidFaces
  dtFaceRateControlEnabled : info'.dtFaceRateControlEnabled = info.dtFaceRateControlEnabled

lemma SameRoute.refl : SameRoute info info := ⟨rfl, rfl, rfl⟩

lemma SameRoute.trans {info' info'' : PathDiscoveryInfo} (h : SameRoute info info')
    (h' : SameRoute info' info'') : SameRoute info info'' :=
  ⟨h'.1.trans h.1, h'.2.trans h.2, h'.3.trans h.3⟩

lemma SameRoute.update {st : PdStore} (h : SameRoute (st key) info) {k : Str} :
    SameRoute (st k) (update st key info k) :=
  (forall_update_iff st fun k info => SameRoute (st k) info).mpr ⟨h, fun _ _ => .refl⟩ k

/-- What a DT handler may do with an Interest that may go to `faces`: it is sent or enqueued on
one of them, and a queued item keeps to them. -/
structure Routed (P : ℕ → Str → InterestQueueItem → Prop) (faces : List Face) (packet : FwInterest)
    (pitEntry : ℕ) (inFace : Face) (st : PdStore) (r : Node × List NodeAction) : Prop where
  items : NodeItems P r.1
  route : ∀ key, SameRoute (st key) (r.1.pd key)
  out : ∀ a ∈ r.2, ∃ face ∈ faces,
    a = .sendInterest packet pitEntry face inFace ∨ a = .enqueue packet pitEntry face inFace

lemma selectDtBootstrapFaceRR_mem (hne : faces ≠ []) :
    (selectDtBootstrapFaceRR info faces).2 ∈ faces := by
  have hpos : 0 < faces.length := length_pos_iff.mpr hne
  simp only [selectDtBootstrapFaceRR, if_neg hne]
  rw [getD_eq_getElem _ _ (by split <;> omega)]
  exact getElem_mem _

section

variable (h : NodeItems P node)
include h

lemma routed_sendBootstrap (hinfo : SameRoute (node.pd key) info)
    {candidates : List Face} (hsub : ∀ f ∈ candidates, f ∈ faces) (hne : candidates ≠ []) :
    Routed P faces packet pitEntry inFace node.pd
      (sendBootstrap node key packet pitEntry inFace info candidates) := by
  have hchosen : SameRoute (node.pd key) (selectDtBootstrapFaceRR info candidates).1 := by
    simp only [selectDtBootstrapFaceRR, if_neg hne]
    exact { hinfo with }
  refine ⟨h, fun k => hchosen.update, fun a ha => ?_⟩
  exact ⟨_, hsub _ (selectDtBootstrapFaceRR_mem hne), .inl (mem_singleton.mp ha)⟩

lemma routed_enqueueShaped (cfg : NodeConfig) {ready : List Face}
    (hsub : ∀ f ∈ ready, f ∈ faces)
    (hitem : ∀ candidates, (∀ f ∈ candidates, f ∈ faces) → ∀ assigned ∈ faces,
      P threadID key ⟨packet, pitEntry, inFace, threadID, candidates, assigned⟩) :
    Routed P faces packet pitEntry inFace node.pd
      (enqueueShaped cfg threadID node key packet pitEntry inFace ready) := by
  have hown : AllItems (P threadID) ((node.dt.view threadID).selectFace key ready).1.own :=
    h threadID
  have hmem : ((node.dt.view threadID).selectFace key ready).2 = 0
      ∨ ((node.dt.view threadID).selectFace key ready).2 ∈ ready :=
    selectDtAssignedFaceWRR_mem _ _ _
  simp only [enqueueShaped]
  split_ifs with hzero
  · exact ⟨h.write hown, fun k => .refl, by simp⟩
  · have hface := hsub _ (hmem.resolve_left hzero)
    refine ⟨h.write (hown.enqueue (hitem ready hsub _ hface)), fun k => .refl, ?_⟩
    intro a ha
    exact ⟨_, hface, .inr (mem_singleton.mp ha)⟩

lemma routed_shapeInterest (hne : faces ≠ [])
    (hitem : ∀ candidates, (∀ f ∈ candidates, f ∈ faces) → ∀ assigned ∈ faces,
      P threadID key ⟨packet, pitEntry, inFace, threadID, candidates, assigned⟩) :
    Routed P faces packet pitEntry inFace node.pd
      (shapeInterest cfg threadID node key packet pitEntry inFace faces now) := by
  set shared := activateFaces node.dt.shared faces now with hshared
  have hactive : NodeItems P { node with dt := { node.dt with shared := shared } } := h
  have hready : ∀ f ∈ faces.filter (isReady shared), f ∈ faces :=
    fun f hf => (mem_filter.mp hf).1
  have hsame : SameRoute (node.pd key) { node.pd key with
      dtBootstrapProbeCounter := (node.pd key).dtBootstrapProbeCounter + 1 } := ⟨rfl, rfl, rfl⟩
  simp only [shapeInterest, ← hshared]
  split_ifs with hnone hpartial hprobe
  · exact routed_sendBootstrap hactive SameRoute.refl (fun f hf => hf) hne
  · exact routed_sendBootstrap hactive hsame (fun f hf => (mem_filter.mp hf).1) hpartial
  · have hcounted : NodeItems P { node with
        dt := { node.dt with shared := shared }
        pd := update node.pd key { node.pd key with
          dtBootstrapProbeCounter := (node.pd key).dtBootstrapProbeCounter + 1 } } := h
    have hr := routed_enqueueShaped hcounted cfg hready hitem
    exact { hr with route := fun k => (hsame.update).trans (hr.route k) }
  · exact routed_enqueueShaped hactive cfg hready hitem

/-- **A DT Interest** is sent or enqueued on one of the faces that it may go to. -/
lemma NodeItems.routeInterest {nexthops : List FibNextHopEntry}
    (hfaces : faces = dtFacesOf (node.pd (prefixKeyOf packet.name)) nexthops snapshot)
    (hitem : ∀ candidates, (∀ f ∈ candidates, f ∈ faces) → ∀ assigned ∈ faces,
      P threadID (prefixKeyOf packet.name)
        ⟨packet, pitEntry, inFace, threadID, candidates, assigned⟩) :
    Routed P faces packet pitEntry inFace node.pd
      (routeInterest cfg threadID node packet pitEntry inFace nexthops snapshot now) := by
  simp only [Mars.routeInterest, ← hfaces]
  have hquiet : Routed P faces packet pitEntry inFace node.pd (node, []) :=
    ⟨h, fun _ => .refl, by simp⟩
  split_ifs with hnone hempty hdirect
  · exact hquiet
  · exact hquiet
  · refine ⟨h, fun _ => .refl, fun a ha => ?_⟩
    obtain ⟨f, fs, rfl⟩ := exists_cons_of_ne_nil hempty
    exact ⟨f, mem_cons_self, .inl (mem_singleton.mp ha)⟩
  · exact routed_shapeInterest h hempty hitem

lemma NodeItems.interest (cfg : NodeConfig) (threadID : ℕ)
    (hmove : ∀ blocked, MovesAlong (P threadID) blocked fun key => (node.pd key).dtValidFaces)
    (packet : FwInterest) (pitEntry : ℕ) (inFace : Face) (nexthops : List FibNextHopEntry)
    (now : Time) (wish : List Str)
    (hfaces : faces = dtFacesOf (node.pd (prefixKeyOf packet.name)) nexthops
      (syncDtFailureState cfg threadID node now wish).2)
    (hitem : ∀ candidates, (∀ f ∈ candidates, f ∈ faces) → ∀ assigned ∈ faces,
      P threadID (prefixKeyOf packet.name)
        ⟨packet, pitEntry, inFace, threadID, candidates, assigned⟩) :
    Routed P faces packet pitEntry inFace node.pd
      (handleDataTransmissionInterest cfg threadID node packet pitEntry inFace nexthops now
        wish) := by
  have hsync := h.sync cfg hmove now wish
  have hpd := sync_pd cfg node threadID now wish
  rw [← hpd]
  exact hsync.routeInterest (hpd ▸ hfaces) hitem

/-- **A tick** sends queued items on the faces they are assigned to. -/
lemma NodeItems.tick
    (hmove : ∀ blocked, MovesAlong (P threadID) blocked fun key => (node.pd key).dtValidFaces) :
    NodeItems P (onTick cfg threadID node now wish).1
      ∧ (onTick cfg threadID node now wish).1.pd = node.pd
      ∧ ∀ a ∈ (onTick cfg threadID node now wish).2, ∃ item key, P threadID key item
        ∧ a = .sendInterest item.packet item.pitEntry item.assignedFace item.inFace := by
  have hsync := h.sync cfg hmove now wish
  have hpd := sync_pd cfg node threadID now wish
  simp only [onTick]
  set synced := syncDtFailureState cfg threadID node now wish with hsynced
  set scheduled := runDtFastSchedulerEpochIfDue cfg synced.1 synced.2 now with hscheduled
  have hitems : NodeItems P scheduled := by
    rw [hscheduled, runDtFastSchedulerEpochIfDue]
    split_ifs <;> exact hsync
  have hpd' : scheduled.pd = node.pd := by
    rw [hscheduled, runDtFastSchedulerEpochIfDue]
    split_ifs <;> exact hpd
  have hown : AllItems (P threadID) (scheduled.dt.view threadID).own := hitems threadID
  obtain ⟨hdrained, hsent⟩ := hown.drainFaces
  refine ⟨hitems.write hdrained, hpd', fun a ha => ?_⟩
  obtain ⟨sent, hmem, rfl⟩ := mem_map.mp ha
  obtain ⟨hface, key, hP⟩ := hsent sent hmem
  exact ⟨sent.2, key, hP, by rw [hface]⟩

omit h in
/-- What a node does after path discovery converges concerns neither the prefix states nor the
queues. -/
lemma foldl_afterConvergence (cfg : NodeConfig) (now : Time) (out : List PdAction) (node : Node) :
    (out.foldl (afterConvergence cfg now) node).pd = node.pd
      ∧ (out.foldl (afterConvergence cfg now) node).dt.threads = node.dt.threads := by
  induction out generalizing node with
  | nil => exact ⟨rfl, rfl⟩
  | cons a out ih =>
    have hone : (afterConvergence cfg now node a).pd = node.pd
        ∧ (afterConvergence cfg now node a).dt.threads = node.dt.threads := by
      cases a with
      | localNodeConverged info =>
        simp only [afterConvergence]
        split_ifs <;> exact ⟨rfl, rfl⟩
      | _ => exact ⟨rfl, rfl⟩
    rw [foldl_cons, (ih _).1, (ih _).2]
    exact hone

omit h in
/-- Path discovery changes the prefix states as its handler does, and does not touch the queues. -/
lemma nodeStep_pd (cfg : NodeConfig) (node : Node) (e : PdEvent) (now : Time) :
    (nodeStep cfg node (.pd e now)).pd = (pdHandle cfg.nodeName node.pd e).state
      ∧ (nodeStep cfg node (.pd e now)).dt.threads = node.dt.threads :=
  foldl_afterConvergence cfg now _ { node with pd := (pdHandle cfg.nodeName node.pd e).state }

lemma NodeItems.pd (e : PdEvent) (now : Time) : NodeItems P (nodeStep cfg node (.pd e now)) := by
  intro t
  rw [(nodeStep_pd cfg node e now).2]
  exact h t

/-- **A step of a node** keeps what holds of all items, if it goes along with them when they move
and holds of the item that a DT Interest may become. -/
lemma NodeItems.step
    (hmove : ∀ t blocked, MovesAlong (P t) blocked fun key => (node.pd key).dtValidFaces)
    {e : NodeEvent}
    (hitem : ∀ threadID packet pitEntry inFace nexthops now wish,
      e = .dtInterest threadID packet pitEntry inFace nexthops now wish →
      ∀ candidates assigned, P threadID (prefixKeyOf packet.name)
        ⟨packet, pitEntry, inFace, threadID, candidates, assigned⟩) :
    NodeItems P (nodeStep cfg node e) := by
  cases e with
  | pd e now => exact h.pd e now
  | dtInterest threadID packet pitEntry inFace nexthops now wish =>
    have hrouted := h.interest cfg threadID (hmove threadID) packet pitEntry inFace nexthops now
      wish rfl fun candidates _ assigned _ =>
        hitem threadID packet pitEntry inFace nexthops now wish rfl candidates assigned
    exact hrouted.items
  | dtNack name inFace nackReason inRecords => exact h
  | tick threadID now wish => exact (h.tick (hmove threadID)).1
  | rateRound face newRate starved => exact h

end

end Node

end Mars
