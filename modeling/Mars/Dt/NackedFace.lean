import Mars.Dt.Items
import Mars.PathDiscovery.Rules

/-!
What a NoRoute NACK for a DT Interest does to the routing of its prefix: nothing.

`handleTransmissionNack` edits `ActiveFaces`, which no handler reads; DT Interests of a
converged prefix are routed by `DtValidFaces`, which nothing edits once the prefix has converged.

* `settled_pdLocked`: path discovery does not touch the routing of a converged prefix;
* `Barred`, `barred_step`: a face that is neither valid nor wanted by a queued item stays out;
* `nacked_face_unused`: so a face that sent a NACK stays out if it was out before.
-/

namespace Mars

open Function Outcome List

variable {info : PathDiscoveryInfo} {s : PathDiscoveryInfo}

/-! ### Path discovery leaves a converged prefix alone -/

/-- The state of a converged prefix, with the routing it had. -/
structure Settled (info s : PathDiscoveryInfo) : Prop extends SameRoute info s where
  converged : s.isNodeConverged = true

lemma Settled.localNodeConverged (h : Settled info s) :
    (localNodeConverged s).Ensures (Settled info) (fun _ => False) fun _ => True := by
  rw [Mars.localNodeConverged, if_pos h.converged]
  exact ensures_go_nil h

lemma Settled.checkCurrentTier (h : Settled info s) :
    (checkCurrentTier s).Ensures (Settled info) (Settled info) fun _ => True := by
  have hclear : Settled info (clearUpperTiers s) := { h with }
  refine ensures_checkCurrentTier (fun _ => h) (fun _ => trivial) fun _ => ?_
  exact hclear.localNodeConverged.mono (fun _ h => h) (fun _ h => h.elim) fun _ h => h

lemma Settled.probeTier (h : Settled info s) {node : Str} {tierIndex : ℕ} :
    (probeTier node s tierIndex).Ensures (Settled info) (Settled info) fun _ => True := by
  have hprobed : Settled info (probeFaces s tierIndex) := by
    rw [probeFaces_eq]
    exact { h with }
  refine ensures_probeTier (fun _ => h) (fun _ _ => hprobed) fun _ _ => ?_
  exact hprobed.localNodeConverged.mono (fun _ h => h) (fun _ h => h.elim) fun _ h => h

lemma keeps_settled : PdKeeps (Settled info) where
  marks h _ _ _ _ _ := { h with }
  exclude h _ := { h with }
  countTier h _ := { h with }
  converge h := h.localNodeConverged.mono (fun _ hs => hs) (fun _ hs => hs.elim) fun _ hs => hs
  checkTier h := h.checkCurrentTier

/-- **Path discovery does not touch the routing of a converged prefix.** -/
lemma settled_pdLocked (h : info.isNodeConverged = true) {node : Str} {i : PdInput} :
    Settled info (pdLocked node info i).state := by
  have hself : Settled info info := ⟨.refl, h⟩
  refine keeps_settled.pdLocked hself (fun _ hs _ => { hs with }) ?_
  rintro srcNode probeIdx inFace nexthops rfl
  refine keeps_settled.interest hself (P := Settled info) (fun _ _ => ?_) (fun _ hs => hs)
    fun _ hs hconv => absurd (hs.converged.symm.trans hconv) (by decide)
  refine ensures_initializeDiscovery (fun _ => hself) fun _ => ?_
  have hfirst : Settled info (firstTiers info probeIdx nexthops) := by
    rw [firstTiers_eq]
    exact { hself with }
  exact (hfirst.probeTier).mono (fun _ hs => { hs with }) (fun _ hs => hs) fun _ h => h

lemma settled_pdHandle {st : PdStore} {key : Str} (h : (st key).isNodeConverged = true)
    {node : Str} {e : PdEvent} : Settled (st key) ((pdHandle node st e).state key) := by
  cases hinput : e.input with
  | none =>
    rw [(pdHandle_of_no_input hinput).1]
    exact ⟨.refl, h⟩
  | some ki =>
    obtain ⟨k, i⟩ := ki
    rw [pdHandle_of_input hinput, PdStore.locked]
    rcases eq_or_ne key k with rfl | hne
    · simpa using settled_pdLocked h
    · simpa [hne] using (⟨.refl, h⟩ : Settled (st key) (st key))

/-! ### The items that are queued -/

variable {cfg : NodeConfig} {node : Node} {key : Str} {f : Face}

/-- An item waits in the queue of its own prefix, and one of prefix `key` has nothing to do
with face `f`. -/
def Avoids (key : Str) (f : Face) (k : Str) (item : InterestQueueItem) : Prop :=
  prefixKeyOf item.packet.name = k
    ∧ (k = key → item.assignedFace ≠ f ∧ f ∉ item.candidateFaces)

lemma survivorsOf_subset {blocked : Face} {valid : List Face} {item : InterestQueueItem} :
    ∀ g ∈ survivorsOf blocked valid item, g ∈ item.candidateFaces ∨ g ∈ valid := by
  have hfilter : ∀ faces, ∀ g ∈ dtFilterFacesWithoutFailure faces blocked, g ∈ faces := by
    intro faces g hg
    unfold dtFilterFacesWithoutFailure at hg
    split_ifs at hg
    exacts [hg, (mem_filter.mp hg).1]
  intro g hg
  simp only [survivorsOf] at hg
  split_ifs at hg
  exacts [.inr (hfilter _ g hg), .inl (hfilter _ g hg)]

lemma movesAlong_avoids {valid : Str → List Face} (hvalid : f ∉ valid key) (blocked : Face) :
    MovesAlong (Avoids key f) blocked valid := by
  intro k item hitem newFace hnew
  refine ⟨hitem.1, ?_⟩
  rintro rfl
  have hout : f ∉ survivorsOf blocked (valid k) item := by
    intro hf
    rcases survivorsOf_subset f hf with h | h
    exacts [(hitem.2 rfl).2 h, hvalid h]
  exact ⟨fun heq => hout (heq ▸ hnew), hout⟩

/-- An item waits in the queue of its own prefix. -/
def Keyed (k : Str) (item : InterestQueueItem) : Prop := prefixKeyOf item.packet.name = k

lemma keyed_step (h : NodeItems (fun _ => Keyed) node) {e : NodeEvent} :
    NodeItems (fun _ => Keyed) (nodeStep cfg node e) := by
  refine h.step (fun _ _ _ _ hitem _ _ => hitem) ?_
  rintro threadID packet pitEntry inFace nexthops now wish rfl candidates assigned
  rfl

lemma keyed_nodeRun {es : List NodeEvent} : NodeItems (fun _ => Keyed) (nodeRun cfg es) :=
  Steps.run_invariant (I := NodeItems fun _ => Keyed) (fun _ _ h => keyed_step h) nodeItems_new es

/-! ### A face that stays out -/

/-- Face `f` is out of the routing of the converged prefix `key`. -/
structure Barred (key : Str) (f : Face) (node : Node) : Prop where
  converged : (node.pd key).isNodeConverged = true
  nonempty : (node.pd key).dtValidFaces ≠ []
  notValid : f ∉ (node.pd key).dtValidFaces
  items : NodeItems (fun _ => Avoids key f) node

/-- The action sends or enqueues a DT Interest of prefix `key` on face `f`. -/
def NodeAction.Routes (key : Str) (f : Face) : NodeAction → Prop
  | .sendInterest packet _ nexthop _ => prefixKeyOf packet.name = key ∧ nexthop = f
  | .enqueue packet _ assignedFace _ => prefixKeyOf packet.name = key ∧ assignedFace = f
  | _ => False

lemma Barred.of_sameRoute (h : Barred key f node) {node' : Node}
    (hroute : SameRoute (node.pd key) (node'.pd key))
    (hitems : NodeItems (fun _ => Avoids key f) node') :
    Barred key f node' where
  converged := hroute.isNodeConverged.trans h.converged
  nonempty := hroute.dtValidFaces ▸ h.nonempty
  notValid := hroute.dtValidFaces ▸ h.notValid
  items := hitems

/-- The faces a DT Interest of the prefix may go to are valid ones. -/
lemma Barred.notMem_dtFacesOf (h : Barred key f node) {nexthops : List FibNextHopEntry}
    {snapshot : DtFailureSnapshot} : f ∉ dtFacesOf (node.pd key) nexthops snapshot := by
  intro hf
  simp only [dtFacesOf, if_pos (And.intro h.converged h.nonempty)] at hf
  have hmem : f ∈ (node.pd key).dtValidFaces := by
    split_ifs at hf
    · unfold dtFilterFacesWithoutFailure at hf
      split_ifs at hf
      exacts [hf, (mem_filter.mp hf).1]
    · exact hf
  exact h.notValid hmem

/-- **A step leaves a barred face out** and does not use it. -/
lemma barred_step (h : Barred key f node) {e : NodeEvent} :
    Barred key f (nodeStep cfg node e) ∧ ∀ a ∈ (nodeHandle cfg node e).2, ¬a.Routes key f := by
  have hmove : ∀ blocked, MovesAlong (Avoids key f) blocked fun key => (node.pd key).dtValidFaces :=
    movesAlong_avoids h.notValid
  cases e with
  | pd e now =>
    refine ⟨h.of_sameRoute ?_ (h.items.pd e now), fun a ha => ?_⟩
    · rw [(nodeStep_pd cfg node e now).1]
      exact (settled_pdHandle h.converged).toSameRoute
    · obtain ⟨b, -, rfl⟩ := mem_map.mp ha
      exact id
  | dtInterest threadID packet pitEntry inFace nexthops now wish =>
    have hfaces : prefixKeyOf packet.name = key →
        f ∉ dtFacesOf (node.pd (prefixKeyOf packet.name)) nexthops
          (syncDtFailureState cfg threadID node now wish).2 := by
      rintro rfl
      exact h.notMem_dtFacesOf
    have hrouted := h.items.interest cfg threadID hmove packet pitEntry inFace nexthops now wish
      rfl fun candidates hsub assigned hassigned =>
        ⟨rfl, fun hkey => ⟨fun heq => hfaces hkey (heq ▸ hassigned),
          fun hf => hfaces hkey (hsub f hf)⟩⟩
    refine ⟨h.of_sameRoute (hrouted.route key) hrouted.items, fun a ha => ?_⟩
    obtain ⟨face, hface, rfl | rfl⟩ := hrouted.out a ha
    · rintro ⟨hkey, rfl⟩
      exact hfaces hkey hface
    · rintro ⟨hkey, rfl⟩
      exact hfaces hkey hface
  | dtNack name inFace nackReason inRecords =>
    refine ⟨h.of_sameRoute ?_ h.items, fun a ha => ?_⟩
    · have hsame : SameRoute (node.pd (prefixKeyOf name))
          (if nackReason = nackReasonNoRoute then
            dropActiveFace (node.pd (prefixKeyOf name)) inFace
          else node.pd (prefixKeyOf name)) := by
        simp only [dropActiveFace]
        split_ifs <;> exact ⟨rfl, rfl, rfl⟩
      exact hsame.update
    · obtain ⟨faceID, -, rfl⟩ := mem_map.mp ha
      exact id
  | tick threadID now wish =>
    obtain ⟨hitems, hpd, hsent⟩ := h.items.tick hmove
    refine ⟨h.of_sameRoute ?_ hitems, fun a ha => ?_⟩
    · simp only [nodeStep, nodeHandle, hpd]
      exact .refl
    · obtain ⟨item, k, hitem, rfl⟩ := hsent a ha
      rintro ⟨hkey, hface⟩
      exact (hitem.2 (hitem.1.symm.trans hkey)).1 hface
  | rateRound face newRate starved =>
    exact ⟨h.of_sameRoute .refl h.items, fun a ha => absurd ha not_mem_nil⟩

/-- **A face that sent a NoRoute NACK stays out if it was out before**: it was no valid face of
the converged prefix, and no queued Interest was assigned to it or could be moved to it. -/
theorem nacked_face_unused (cfg : NodeConfig) (es fs : List NodeEvent) (name : Name) (f : Face)
    (inRecords : List Face) (e : NodeEvent)
    (hconv : ((nodeRun cfg es).pd (prefixKeyOf name)).isNodeConverged = true)
    (htwo : 2 ≤ ((nodeRun cfg es).pd (prefixKeyOf name)).dtValidFaces.length)
    (hout : f ∉ ((nodeRun cfg es).pd (prefixKeyOf name)).dtValidFaces)
    (hqueued : ∀ t, ∀ item ∈ ((nodeRun cfg es).dt.threads t).dtQueuesByPrefix (prefixKeyOf name),
      item.assignedFace ≠ f ∧ f ∉ item.candidateFaces) :
    ∀ a ∈ (nodeHandle cfg
        (nodeRun cfg (es ++ .dtNack name f nackReasonNoRoute inRecords :: fs)) e).2,
      ¬a.Routes (prefixKeyOf name) f := by
  have hstart : Barred (prefixKeyOf name) f (nodeRun cfg es) := by
    refine ⟨hconv, fun hnil => ?_, hout, fun t k item hitem => ?_⟩
    · rw [hnil] at htwo
      exact absurd htwo (by decide)
    · refine ⟨keyed_nodeRun t k item hitem, ?_⟩
      rintro rfl
      exact hqueued t item hitem
  have hlater : Barred (prefixKeyOf name) f
      (nodeRun cfg (es ++ .dtNack name f nackReasonNoRoute inRecords :: fs)) := by
    rw [nodeRun, Steps.run_append]
    exact Steps.run_invariant (I := Barred (prefixKeyOf name) f)
      (fun _ e h => (barred_step h).1) hstart _
  exact (barred_step hlater).2

/-- A DT Interest from face `9`, with nexthops `2` and `3`. -/
def dtRequest (seq : Char) (now : Time) : NodeEvent :=
  .dtInterest 0 (dtPacket seq) 0 9 [⟨2, 1⟩, ⟨3, 1⟩] now []

/-- Of three faces that are probed one answers with NoRoute. -/
def oneNoRoute : List NodeEvent :=
  [.pd (probe '0' 9 [(2, 1), (3, 1), (4, 1)]) 0, .pd (noRoute 4) 0, .pd (report 2 true true) 0,
    .pd (report 3 true true) 0]

theorem nacked_face_unused_other_face :
    ((nodeRun plainNode oneNoRoute).pd ['p']).dtValidFaces = [2, 3]
      ∧ ∀ a ∈ (nodeHandle plainNode (nodeRun plainNode (oneNoRoute ++ .dtNack (dtPacket '0').name 4
          nackReasonNoRoute [9] :: [dtRequest '1' 0])) (dtRequest '2' 0)).2, ¬a.Routes ['p'] 4 :=
  ⟨by decide +kernel, nacked_face_unused plainNode oneNoRoute [dtRequest '1' 0]
    (dtPacket '0').name 4 [9] (dtRequest '2' 0) (by decide +kernel) (by decide +kernel)
    (by decide +kernel) fun t item hitem => by
      have hempty : ((nodeRun plainNode oneNoRoute).dt.threads t).dtQueuesByPrefix ['p'] = [] := rfl
      exact absurd (hempty ▸ hitem) not_mem_nil⟩

/-- Face `2` gets a DT Interest, which it is sent at the next tick, and answers it with a
NoRoute NACK.  The Interest after the next one is enqueued for face `2` again, although face
`3` is valid. -/
theorem nacked_face_used_again :
    let es := twoValidFaces ++ [dtRequest '1' 2000000, .tick 0 4000000 []]
    let nacked := es ++ [.dtNack (dtPacket '1').name 2 nackReasonNoRoute [9]]
    ((nodeRun plainNode es).pd ['p']).isNodeConverged = true
      ∧ ((nodeRun plainNode es).pd ['p']).dtValidFaces = [2, 3]
      ∧ (nodeHandle plainNode (nodeRun plainNode (twoValidFaces ++ [dtRequest '1' 2000000]))
          (.tick 0 4000000 [])).2 = [.sendInterest (dtPacket '1') 0 2 9]
      ∧ ((nodeRun plainNode nacked).pd ['p']).dtValidFaces = [2, 3]
      ∧ (nodeHandle plainNode (nodeRun plainNode (nacked ++ [dtRequest '2' 5000000]))
          (dtRequest '3' 6000000)).2 = [.enqueue (dtPacket '3') 0 2 9] := by
  decide +kernel

end Mars
