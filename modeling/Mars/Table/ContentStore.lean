import Mars.Table.Insertion

/-!
The content store of a forwarding thread.

* `CsOnly`: what `insertData` changes;
* `CsAt`: a node has the CS entry with an index; `Caches`: a node at or below the one of a name
  has one, and only then `findMatchingDataFromCS` finds one;
* `CsWf`: the CS entries at the nodes, those in the map and the indices in the queue are the same;
  every operation of the table keeps this if no two names have the same hashes.
-/

namespace Mars

open Function PitCsTree Trie Option List

variable {cfg : TableConfig} {p p' p'' : PitCsTree} {node : List ℕ} {name : Name} {index : ℕ}
  {data : FwData} {bound : ℕ} {queue : List ℕ} {interest : FwInterest} {now : Time}

/-! ### What belongs to the content store -/

/-- Only the tree and the content store have changed. -/
structure CsOnly (p p' : PitCsTree) : Prop where
  table : p' = { p with
    tree := p'.tree
    nCsEntries := p'.nCsEntries
    csMap := p'.csMap
    csQueue := p'.csQueue
    csLocations := p'.csLocations }

lemma CsOnly.refl (p : PitCsTree) : CsOnly p p := ⟨rfl⟩

lemma CsOnly.trans (h : CsOnly p p') (h' : CsOnly p' p'') : CsOnly p p'' :=
  ⟨by rw [h'.table, h.table]⟩

lemma csOnly_eraseCsData (p : PitCsTree) (index : ℕ) : CsOnly p (p.eraseCsData index) := by
  unfold eraseCsData
  split
  exacts [.refl p, ⟨rfl⟩]

lemma csOnly_evictEntries (capacity fuel : ℕ) (p : PitCsTree) :
    CsOnly p (p.evictEntries capacity fuel) := by
  induction fuel generalizing p with
  | zero => exact .refl p
  | succ fuel ih =>
    unfold evictEntries
    split_ifs
    · exact .refl p
    · have herase := csOnly_eraseCsData p (p.csQueue.headD 0)
      have hpop : CsOnly (p.eraseCsData (p.csQueue.headD 0))
          { p.eraseCsData (p.csQueue.headD 0) with csQueue := p.csQueue.tail } := ⟨rfl⟩
      exact (herase.trans hpop).trans (ih _)

lemma csOnly_insertData (cfg : TableConfig) (p : PitCsTree) (data : FwData) (now : Time) :
    CsOnly p (p.insertData cfg data now) := by
  unfold insertData
  dsimp only
  split
  · exact ⟨rfl⟩
  · exact CsOnly.trans ⟨rfl⟩ (csOnly_evictEntries cfg.csCapacity _ _)

lemma CsOnly.entries (h : CsOnly p p') : p'.entries = p.entries := by rw [h.table]

lemma CsOnly.pitExpiryQueue (h : CsOnly p p') : p'.pitExpiryQueue = p.pitExpiryQueue := by
  rw [h.table]

lemma CsOnly.pitTokens (h : CsOnly p p') : p'.pitTokens = p.pitTokens := by rw [h.table]

/-! ### Lookup -/

/-- The node has the CS entry with this index. -/
def PitCsTree.CsAt (p : PitCsTree) (node : List ℕ) (index : ℕ) : Prop :=
  node ∈ p.tree.paths ∧ (p.tree.val node).csEntry = some index

/-- There is a CS entry at the node of the name or below. -/
def PitCsTree.Caches (cfg : TableConfig) (p : PitCsTree) (name : Name) : Prop :=
  ∃ node index, cfg.nodeOf name <:+ node ∧ p.CsAt node index

lemma csAt_fill (h : PitWf p) (cfg : TableConfig) (name : Name) :
    (p.fill cfg name).CsAt node index ↔ p.CsAt node index := by
  constructor
  · rintro ⟨hnode, hentry⟩
    exact fillTreeToPrefix_induction h (I := fun q nd => nd.csEntry = some index → p.CsAt q index)
      (fun _ _ _ _ hnone => nomatch hnone) (fun q hq hentry => ⟨hq, hentry⟩) node hnode hentry
  · rintro ⟨hnode, hentry⟩
    obtain ⟨hin, hval⟩ := fill_keeps h cfg name node hnode
    exact ⟨hin, by rwa [hval]⟩

/-- An entry that is listed at a node changes no CS entry. -/
lemma ListedAt.csAt {q : List ℕ} {e : ℕ} (hl : ListedAt p node e p') :
    p'.CsAt q index ↔ p.CsAt q index := by
  rw [CsAt, CsAt, hl.tree]
  exact and_congr_right fun _ => by rw [modify_val_congr PitCsTreeNode.csEntry]; simp

lemma Inserts.csAt {hint : Option Name} {e : ℕ} (h : PitWf p)
    (hi : Inserts cfg p interest hint e p') : p'.CsAt node index ↔ p.CsAt node index := by
  cases hi with
  | joined => exact csAt_fill h cfg interest.name
  | made _ hmade => exact hmade.csAt.trans (csAt_fill h cfg interest.name)

lemma freshEntry_csAt {mustBeFresh : Bool} (hnode : node ∈ p.tree.paths)
    (h : p.freshEntry node mustBeFresh now = some index) : p.CsAt node index :=
  ⟨hnode, (filter_eq_some_iff.mp h).1⟩

/-- What the search of a subtree finds is in the subtree. -/
lemma findMatchingDataCSPrefix_csAt {mustBeFresh : Bool} {wish : List ℕ} {fuel : ℕ}
    (hnode : node ∈ p.tree.paths)
    (h : p.findMatchingDataCSPrefix mustBeFresh now wish fuel node = some index) :
    ∃ q, node <:+ q ∧ p.CsAt q index := by
  induction fuel generalizing node with
  | zero => cases h
  | succ fuel ih =>
    rw [findMatchingDataCSPrefix, or_eq_some_iff] at h
    rcases h with hown | ⟨-, hbelow⟩
    · exact ⟨node, suffix_refl node, freshEntry_csAt hnode hown⟩
    · obtain ⟨key, hkey, hfound⟩ := exists_of_findSome?_eq_some hbelow
      rw [mem_rangeOrder, Finset.mem_sort, mem_children] at hkey
      obtain ⟨q, hq, hat⟩ := ih hkey hfound
      exact ⟨q, (suffix_cons key node).trans hq, hat⟩

/-- What is found is at the node of the name or below. -/
lemma findMatchingDataFromCS_csAt {wish : List ℕ}
    (h : (p.findMatchingDataFromCS cfg interest now wish).2 = some index) :
    ∃ node, cfg.nodeOf interest.name <:+ node ∧ p.CsAt node index := by
  unfold findMatchingDataFromCS at h
  split at h
  · cases h
  · rename_i node hexact
    obtain ⟨heq, hnode⟩ := (findExact_eq_some p.tree.root_mem).mp hexact
    rw [append_nil] at heq
    subst heq
    split_ifs at h
    · exact findMatchingDataCSPrefix_csAt hnode h
    · split at h
      · cases h
      · rename_i hfresh
        cases h
        exact ⟨_, suffix_refl _, freshEntry_csAt hnode hfresh⟩

/-! ### The store is well formed -/

/-- The CS entries at the nodes, those in the map and the indices in the queue are the same, each
at the node of the name of its data; there are at most `bound`, and they are counted. -/
structure CsWf (cfg : TableConfig) (bound : ℕ) (p : PitCsTree) : Prop where
  stored : ∀ node i, p.CsAt node i ↔ ∃ entry, p.csMap i = some entry ∧ entry.node = node
  named : ∀ i entry, p.csMap i = some entry →
    i = cfg.nameHash entry.data.name ∧ entry.node = cfg.nodeOf entry.data.name
  queued : ∀ i, i ∈ p.csQueue ↔ p.csMap i ≠ none
  nodup : p.csQueue.Nodup
  fits : p.csQueue.length ≤ bound
  count : p.nCsEntries = p.csQueue.length
  located : ∀ i ∈ p.csQueue, i ∈ p.csLocations

lemma csWf_new : CsWf cfg cfg.csCapacity .new where
  stored := fun _ i =>
    ⟨fun hat => absurd hat.2 (some_ne_none i).symm, fun ⟨_, hnone, _⟩ => nomatch hnone⟩
  named := nofun
  queued := fun _ => ⟨fun hin => absurd hin List.not_mem_nil, fun hne => absurd rfl hne⟩
  nodup := nodup_nil
  fits := Nat.zero_le _
  count := rfl
  located := fun _ hin => absurd hin List.not_mem_nil

/-- A step that leaves the store and the CS entries of the nodes. -/
lemma CsWf.congr (h : CsWf cfg bound p) (hstore : SameStore p p')
    (hat : ∀ node i, p'.CsAt node i ↔ p.CsAt node i) : CsWf cfg bound p' where
  stored := fun node i => by rw [hat, hstore.csMap]; exact h.stored node i
  named := by rw [hstore.csMap]; exact h.named
  queued := by rw [hstore.csMap, hstore.csQueue]; exact h.queued
  nodup := hstore.csQueue ▸ h.nodup
  fits := hstore.csQueue ▸ h.fits
  count := by rw [hstore.nCsEntries, hstore.csQueue]; exact h.count
  located := by rw [hstore.csQueue, hstore.csLocations]; exact h.located

lemma mem_touch {i : ℕ} : i ∈ touch queue index ↔ i ∈ queue ∨ i = index := by
  rw [touch, mem_append, mem_singleton]
  constructor
  · exact fun h => h.imp_left mem_of_mem_erase
  · rintro (h | h)
    · by_cases heq : i = index
      · exact .inr heq
      · exact .inl ((mem_erase_of_ne heq).mpr h)
    · exact .inr h

lemma nodup_touch (h : queue.Nodup) (index : ℕ) : (touch queue index).Nodup := by
  rw [touch, nodup_append]
  refine ⟨h.erase index, nodup_singleton _, fun i hi j hj heq => ?_⟩
  rw [mem_singleton.mp hj] at heq
  exact h.not_mem_erase (heq ▸ hi)

lemma length_touch_of_mem (h : index ∈ queue) : (touch queue index).length = queue.length := by
  rw [touch, length_append, length_erase_of_mem h, length_singleton,
    Nat.sub_add_cancel (length_pos_of_mem h)]

lemma length_touch_of_notMem (h : index ∉ queue) :
    (touch queue index).length = queue.length + 1 := by
  rw [touch, erase_of_not_mem h, length_append, length_singleton]

/-- An entry that is in the store is used. -/
lemma CsWf.touchCs (h : CsWf cfg bound p) (hin : index ∈ p.csQueue) :
    CsWf cfg bound (p.touchCs index) where
  stored := h.stored
  named := h.named
  queued := fun i => by
    rw [PitCsTree.touchCs, mem_touch, ← h.queued]
    exact ⟨fun hi => hi.elim id fun heq => heq ▸ hin, Or.inl⟩
  nodup := nodup_touch h.nodup index
  fits := (length_touch_of_mem hin).le.trans h.fits
  count := by
    rw [PitCsTree.touchCs, length_touch_of_mem hin]
    exact h.count
  located := fun i hi => by
    rcases mem_touch.mp hi with hi | rfl
    · exact Finset.mem_insert_of_mem (h.located i hi)
    · exact Finset.mem_insert_self _ _

lemma CsWf.findMatchingDataFromCS (h : CsWf cfg bound p) {wish : List ℕ} :
    CsWf cfg bound (p.findMatchingDataFromCS cfg interest now wish).1 := by
  unfold PitCsTree.findMatchingDataFromCS
  split
  · exact h
  · rename_i node hexact
    obtain ⟨-, hnode⟩ := (findExact_eq_some p.tree.root_mem).mp hexact
    split_ifs
    · exact h
    · split
      · exact h
      · rename_i index hfresh
        obtain ⟨entry, hentry, -⟩ := (h.stored node index).mp (freshEntry_csAt hnode hfresh)
        exact h.touchCs ((h.queued index).mpr (by rw [hentry]; exact some_ne_none entry))

/-- What `InsertInterest` does to the store: nothing. -/
lemma insertInterest_store (h : PitWf p) (cfg : TableConfig) (interest : FwInterest) (nonce : ℕ)
    (hint : Option Name) (inFace : Face) (pick : ℕ) :
    SameStore p (p.insertInterest cfg interest nonce hint inFace pick).1
      ∧ ∀ node i, (p.insertInterest cfg interest nonce hint inFace pick).1.CsAt node i
        ↔ p.CsAt node i := by
  rcases hinsert : p.insertInterest cfg interest nonce hint inFace pick with ⟨p', e, loop⟩
  cases loop with
  | true =>
    obtain ⟨-, rfl⟩ := insertInterest_looped h hinsert
    exact ⟨⟨rfl, rfl, rfl, rfl⟩, fun node i => csAt_fill h cfg interest.name⟩
  | false =>
    obtain ⟨q, hq, rfl⟩ := insertInterest_reset h hinsert
    have hat : ∀ node i, q.CsAt node i ↔ p.CsAt node i := fun node i => hq.csAt h
    exact ⟨{ hq.store with }, hat⟩

/-- Nor does `RemoveInterest`: a node with a CS entry is not pruned. -/
lemma removeInterest_store (p : PitCsTree) (e : ℕ) :
    SameStore p (p.removeInterest e)
      ∧ ∀ node i, (p.removeInterest e).CsAt node i ↔ p.CsAt node i := by
  unfold removeInterest
  split
  · exact ⟨⟨rfl, rfl, rfl, rfl⟩, fun _ _ => Iff.rfl⟩
  · rename_i node _
    split_ifs
    · refine ⟨⟨rfl, rfl, rfl, rfl⟩, fun q i => ?_⟩
      have hval : (p.dropEntry e node).tree.val = (p.unlisted e node).val := val_prune
      have hsub : (p.dropEntry e node).tree.paths ⊆ p.tree.paths := prune_subset
      have hsame : ((p.unlisted e node).val q).csEntry = (p.tree.val q).csEntry :=
        modify_val_congr PitCsTreeNode.csEntry (fun _ => by rfl) node q
      rw [CsAt, CsAt, hval, hsame]
      refine and_congr_left fun hentry => ⟨fun hq => hsub hq, fun hq => ?_⟩
      refine mem_paths_prune hq ?_
      rw [PitCsTreeNode.isEmpty, hsame, hentry]
      exact Bool.and_false _
    · exact ⟨⟨rfl, rfl, rfl, rfl⟩, fun _ _ => Iff.rfl⟩

/-! ### Insertion of data -/

/-- The table when `InsertData` has made a new entry and has not evicted any yet. -/
def PitCsTree.storeData (cfg : TableConfig) (p : PitCsTree) (data : FwData) (now : Time) :
    PitCsTree :=
  let index := cfg.nameHash data.name
  let filled := fillTreeToPrefix cfg p.tree data.name
  { p with
    nCsEntries := p.nCsEntries + 1
    tree := filled.1.modify filled.2 fun nd => { nd with csEntry := some index }
    csMap := update p.csMap index
      (some ⟨filled.2, now + data.freshnessPeriod.getD 0, data⟩) }.touchCs index

/-- One round of `EvictEntries`. -/
def PitCsTree.evictOldest (p : PitCsTree) : PitCsTree :=
  { p.eraseCsData (p.csQueue.headD 0) with csQueue := p.csQueue.tail }

/-- `EvictEntries` when there is at most one entry too many. -/
lemma evictEntries_eq {capacity fuel : ℕ} (hlen : p.csQueue.length ≤ capacity + 1)
    (hfuel : p.csQueue.length ≤ fuel) : p.evictEntries capacity fuel
      = if p.csQueue.length ≤ capacity then p else p.evictOldest := by
  have hstop : ∀ q : PitCsTree, q.csQueue.length ≤ capacity →
      ∀ fuel, q.evictEntries capacity fuel = q := by
    intro q hq fuel
    cases fuel with
    | zero => rfl
    | succ fuel => rw [evictEntries, if_pos hq]
  split_ifs with hle
  · exact hstop p hle fuel
  · cases fuel with
    | zero => omega
    | succ fuel =>
      rw [evictEntries, if_neg hle]
      refine hstop p.evictOldest ?_ fuel
      change p.csQueue.tail.length ≤ capacity
      rw [length_tail]
      omega

/-- What `InsertData` does: it refreshes an entry, or makes one while there is room, or makes one
and evicts the oldest. -/
inductive InsertsData (cfg : TableConfig) (p : PitCsTree) (data : FwData) (now : Time) :
    PitCsTree → Prop
  | refreshed (entry : NameTreeCsEntry) (hsome : p.csMap (cfg.nameHash data.name) = some entry) :
      InsertsData cfg p data now ({ p with
        csMap := update p.csMap (cfg.nameHash data.name) (some { entry with
          data := data
          staleTime := now + data.freshnessPeriod.getD 0 }) }.touchCs (cfg.nameHash data.name))
  | stored (hnone : p.csMap (cfg.nameHash data.name) = none)
      (hroom : p.csQueue.length < cfg.csCapacity) :
      InsertsData cfg p data now (p.storeData cfg data now)
  | replaced (hnone : p.csMap (cfg.nameHash data.name) = none)
      (hfull : p.csQueue.length = cfg.csCapacity) :
      InsertsData cfg p data now (p.storeData cfg data now).evictOldest

lemma length_storeData (hnot : cfg.nameHash data.name ∉ p.csQueue) (now : Time) :
    (p.storeData cfg data now).csQueue.length = p.csQueue.length + 1 :=
  length_touch_of_notMem hnot

lemma CsWf.insertsData (h : CsWf cfg cfg.csCapacity p) :
    InsertsData cfg p data now (p.insertData cfg data now) := by
  cases hmap : p.csMap (cfg.nameHash data.name) with
  | some entry =>
    simp only [insertData, hmap]
    exact .refreshed entry hmap
  | none =>
    have hnot : cfg.nameHash data.name ∉ p.csQueue := fun hin => (h.queued _).mp hin hmap
    have hlen := length_storeData hnot now
    have hfits := h.fits
    have hinsert : p.insertData cfg data now = (p.storeData cfg data now).evictEntries
        cfg.csCapacity (p.storeData cfg data now).csQueue.length := by
      simp only [insertData, hmap]
      rfl
    rw [hinsert, evictEntries_eq (by omega) le_rfl]
    split_ifs with hle
    · exact .stored hmap (by omega)
    · exact .replaced hmap (by omega)

section Insertion

/-- The hashes tell the name from those of the Data in the store. -/
def PitCsTree.Apart (cfg : TableConfig) (p : PitCsTree) (name : Name) : Prop :=
  ∀ i entry, p.csMap i = some entry → cfg.nameHash entry.data.name = cfg.nameHash name
    ∨ cfg.nodeOf entry.data.name = cfg.nodeOf name → entry.data.name = name

variable (hapart : p.Apart cfg data.name)

/-- The entry at one index is changed. -/
lemma CsWf.change (h : CsWf cfg bound p) {bound' : ℕ} {new : Option NameTreeCsEntry}
    (hself : p'.csMap index = new) (hnamed : ∀ entry, new = some entry →
      index = cfg.nameHash entry.data.name ∧ entry.node = cfg.nodeOf entry.data.name)
    (hat : ∀ node, p'.CsAt node index ↔ ∃ entry, new = some entry ∧ entry.node = node)
    (hqueued : index ∈ p'.csQueue ↔ new ≠ none)
    (hother : ∀ i ≠ index, p'.csMap i = p.csMap i ∧ (i ∈ p'.csQueue ↔ i ∈ p.csQueue)
      ∧ ∀ node, p'.CsAt node i ↔ p.CsAt node i)
    (hnodup : p'.csQueue.Nodup) (hfits : p'.csQueue.length ≤ bound')
    (hcount : p'.nCsEntries = p'.csQueue.length)
    (hlocated : ∀ i ∈ p'.csQueue, i ∈ p'.csLocations) : CsWf cfg bound' p' := by
  refine ⟨fun node i => ?_, fun i entry hi => ?_, fun i => ?_, hnodup, hfits, hcount, hlocated⟩
  all_goals rcases eq_or_ne i index with rfl | hne
  · rw [hself]
    exact hat node
  · rw [(hother i hne).2.2, (hother i hne).1]
    exact h.stored node i
  · exact hnamed entry (hself.symm.trans hi)
  · exact h.named i entry ((hother i hne).1 ▸ hi)
  · rw [hself]
    exact hqueued
  · rw [(hother i hne).2.1, (hother i hne).1]
    exact h.queued i

/-- New data with the same name for an entry that is there. -/
lemma CsWf.renew (h : CsWf cfg bound p) {entry : NameTreeCsEntry} (entry' : NameTreeCsEntry)
    (hsome : p.csMap index = some entry) (hnode : entry'.node = entry.node)
    (hdata : entry'.data.name = entry.data.name) :
    CsWf cfg bound { p with csMap := update p.csMap index (some entry') } := by
  refine h.change (update_self ..) ?_ (fun node => (h.stored node index).trans ?_) ?_
    (fun i hne => ⟨update_of_ne hne .., Iff.rfl, fun _ => Iff.rfl⟩) h.nodup h.fits h.count h.located
  · rintro _ ⟨⟩
    rw [hdata, hnode]
    exact h.named index entry hsome
  · rw [hsome]
    simp [hnode]
  · exact iff_of_true ((h.queued index).mpr (hsome ▸ some_ne_none entry)) (some_ne_none entry')

include hapart in
lemma CsWf.refreshed {bound : ℕ} (h : CsWf cfg bound p) {entry : NameTreeCsEntry}
    (hsome : p.csMap (cfg.nameHash data.name) = some entry) {staleTime : Time} :
    CsWf cfg bound ({ p with
      csMap := update p.csMap (cfg.nameHash data.name)
        (some { entry with data := data, staleTime := staleTime }) }.touchCs
          (cfg.nameHash data.name)) := by
  have hin : cfg.nameHash data.name ∈ p.csQueue :=
    (h.queued _).mpr (hsome ▸ some_ne_none entry)
  have hsame := (hapart _ entry hsome (.inl (h.named _ entry hsome).1.symm)).symm
  have hrenew := h.renew { entry with data := data, staleTime := staleTime } hsome rfl hsame
  exact hrenew.touchCs hin

include hapart in
/-- The node of a name whose data is not stored has no CS entry. -/
lemma CsWf.not_csAt {bound : ℕ} (h : CsWf cfg bound p)
    (hnone : p.csMap (cfg.nameHash data.name) = none) (i : ℕ) :
    ¬p.CsAt (cfg.nodeOf data.name) i := by
  intro hat
  obtain ⟨entry, hentry, hnode⟩ := (h.stored _ i).mp hat
  obtain ⟨hi, hown⟩ := h.named i entry hentry
  have hsame := hapart i entry hentry (.inr (hown.symm.trans hnode))
  rw [hi, hsame, hnone] at hentry
  cases hentry

lemma csAt_storeData (hwf : PitWf p) (cfg : TableConfig) (data : FwData) (now : Time)
    (node : List ℕ) (i : ℕ) : (p.storeData cfg data now).CsAt node i
      ↔ node = cfg.nodeOf data.name ∧ i = cfg.nameHash data.name
        ∨ node ≠ cfg.nodeOf data.name ∧ p.CsAt node i := by
  obtain ⟨hsnd, hmem, -⟩ := fillTreeToPrefix_spec hwf cfg data.name
  rw [← csAt_fill hwf cfg data.name]
  simp only [PitCsTree.CsAt, PitCsTree.storeData, PitCsTree.touchCs, Trie.modify, hsnd]
  rcases eq_or_ne node (cfg.nodeOf data.name) with rfl | hne
  · simp [hmem, eq_comm]
  · simp [hne, PitCsTree.fill]

include hapart in
/-- A new entry goes to a node without one. -/
lemma CsWf.storeData {bound : ℕ} (hwf : PitWf p) (h : CsWf cfg bound p)
    (hnone : p.csMap (cfg.nameHash data.name) = none) (now : Time) :
    CsWf cfg (bound + 1) (p.storeData cfg data now) := by
  have hnot : cfg.nameHash data.name ∉ p.csQueue := fun hin => (h.queued _).mp hin hnone
  have hlen := length_storeData hnot now
  have hat := csAt_storeData hwf cfg data now
  have hself : (p.storeData cfg data now).csMap (cfg.nameHash data.name)
      = some ⟨cfg.nodeOf data.name, now + data.freshnessPeriod.getD 0, data⟩ := by
    rw [← (fillTreeToPrefix_spec hwf cfg data.name).1]
    exact update_self _ _ _
  refine h.change hself ?_ (fun node => ?_) ?_
    (fun i hne => ⟨update_of_ne hne .., ?_, fun node => ?_⟩) (nodup_touch h.nodup _) ?_ ?_
    fun i hi => ?_
  · rintro _ ⟨⟩
    exact ⟨rfl, rfl⟩
  · rw [hat]
    simp only [and_true, some_inj, exists_eq_left']
    refine ⟨fun hor => ?_, fun heq => .inl heq.symm⟩
    rcases hor with heq | ⟨-, hold⟩
    · exact heq.symm
    · obtain ⟨entry, hentry, -⟩ := (h.stored _ _).mp hold
      rw [hnone] at hentry
      cases hentry
  · exact iff_of_true (mem_touch.mpr (.inr rfl)) (some_ne_none _)
  · exact mem_touch.trans (or_iff_left hne)
  · rw [hat]
    refine ⟨fun hor => hor.elim (fun heq => absurd heq.2 hne) And.right,
      fun hold => .inr ⟨?_, hold⟩⟩
    rintro rfl
    exact h.not_csAt hapart hnone i hold
  · rw [hlen]
    exact Nat.succ_le_succ h.fits
  · rw [hlen, Nat.cast_succ, ← h.count]
    rfl
  · rcases mem_touch.mp hi with hold | rfl
    · exact Finset.mem_insert_of_mem (h.located i hold)
    · exact Finset.mem_insert_self _ _

end Insertion

/-- The entry at the front of the queue, and the table without it. -/
lemma evictOldest_eq {oldest : ℕ} {rest : List ℕ} {entry : NameTreeCsEntry}
    (hqueue : p.csQueue = oldest :: rest) (hentry : p.csMap oldest = some entry) :
    p.evictOldest = { p with
      tree := p.tree.modify entry.node fun nd => { nd with csEntry := none }
      csMap := update p.csMap oldest none
      nCsEntries := p.nCsEntries - 1
      csQueue := rest } := by
  simp [evictOldest, eraseCsData, hqueue, hentry]

/-- The entry at the front of the queue leaves. -/
lemma CsWf.evictOldest (h : CsWf cfg (bound + 1) p) (hlen : p.csQueue.length = bound + 1) :
    CsWf cfg bound p.evictOldest := by
  obtain ⟨oldest, rest, hqueue⟩ := List.exists_cons_of_length_eq_add_one hlen
  have hin : oldest ∈ p.csQueue := hqueue ▸ List.mem_cons_self
  obtain ⟨entry, hentry⟩ := Option.ne_none_iff_exists'.mp ((h.queued oldest).mp hin)
  obtain ⟨hnotin, hnodup⟩ := List.nodup_cons.mp (hqueue ▸ h.nodup)
  have herased := evictOldest_eq hqueue hentry
  have hat : ∀ node i, p.evictOldest.CsAt node i ↔ p.CsAt node i ∧ node ≠ entry.node := by
    intro node i
    rw [herased]
    simp only [PitCsTree.CsAt, Trie.modify]
    rcases eq_or_ne node entry.node with rfl | hne
    · simp
    · simp [hne]
  have hown : p.CsAt entry.node oldest := (h.stored _ _).mpr ⟨entry, hentry, rfl⟩
  have hrest : p.evictOldest.csQueue = rest := by rw [herased]
  have hlength := congrArg List.length hqueue
  rw [List.length_cons] at hlength
  have hnone : p.evictOldest.csMap oldest = none := by
    rw [herased]
    exact update_self _ _ _
  refine h.change hnone (by rintro _ ⟨⟩) (fun node => ?_) ?_
    (fun i hne => ⟨?_, ?_, fun node => ?_⟩) (hrest ▸ hnodup) ?_ ?_ fun i hi => ?_
  · rw [hat]
    refine iff_of_false ?_ (by rintro ⟨_, ⟨⟩, _⟩)
    rintro ⟨hold, hnode⟩
    obtain ⟨entry', hentry', hnode'⟩ := (h.stored node oldest).mp hold
    rw [hentry, Option.some_inj] at hentry'
    exact hnode (hentry' ▸ hnode'.symm)
  · rw [hrest]
    exact iff_of_false hnotin fun hne => hne rfl
  · rw [herased]
    exact update_of_ne hne _ _
  · rw [hrest, hqueue, List.mem_cons, or_iff_right hne]
  · rw [hat]
    refine ⟨And.left, fun hold => ⟨hold, ?_⟩⟩
    rintro rfl
    exact hne (Option.some_inj.mp (hold.2.symm.trans hown.2))
  · rw [hrest]
    omega
  · have hcount := h.count
    rw [hrest, herased]
    dsimp only
    omega
  · rw [herased] at hi ⊢
    exact h.located i (hqueue ▸ List.mem_cons_of_mem oldest hi)

/-- **`InsertData`** keeps the store well formed. -/
lemma CsWf.insertData (hapart : p.Apart cfg data.name) (hwf : PitWf p)
    (h : CsWf cfg cfg.csCapacity p) :
    CsWf cfg cfg.csCapacity (p.insertData cfg data now) := by
  have hinserts : InsertsData cfg p data now (p.insertData cfg data now) := h.insertsData
  generalize p.insertData cfg data now = p' at hinserts ⊢
  cases hinserts with
  | refreshed entry hsome => exact h.refreshed hapart hsome
  | stored hnone hroom =>
    have hstored := h.storeData hapart hwf hnone now
    have hlen : (p.storeData cfg data now).csQueue.length = p.csQueue.length + 1 :=
      length_storeData (fun hin => (h.queued _).mp hin hnone) now
    exact { hstored with fits := hlen ▸ hroom }
  | replaced hnone hfull =>
    have hstored := h.storeData hapart hwf hnone now
    have hlen : (p.storeData cfg data now).csQueue.length = p.csQueue.length + 1 :=
      length_storeData (fun hin => (h.queued _).mp hin hnone) now
    exact hstored.evictOldest (hlen.trans (congrArg Nat.succ hfull))

end Mars
