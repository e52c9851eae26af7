import Mars.Table.PitEntries

/-!
What `InsertInterest` does to the entries of the PIT.

* `Joins`: the entry that an Interest is aggregated with; `Made`: the one that is made for it;
* `Inserts`: it is one of these; `insertInterest_looped`, `insertInterest_reset`: what the call
  returns in the two cases of the nonce.
-/

namespace Mars

open Function PitCsTree

variable {cfg : TableConfig} {p p' : PitCsTree} {e : ℕ} {node : List ℕ} {interest : FwInterest}
  {hint : Option Name} {pick : ℕ} {q : PitCsTree}

/-- An entry that points to a node is listed there, so it is one of the PIT. -/
lemma PitWf.hasEntry_iff (h : PitWf p) : p.HasEntry e ↔ ∃ node, (p.entries e).node = some node := by
  constructor
  · rintro ⟨node, hnode, hmem⟩
    exact ⟨node, ((h.nodes node hnode).entry e hmem).1⟩
  · rintro ⟨node, hnode⟩
    exact ⟨node, h.listed e node hnode⟩

/-! ### The entry of an Interest -/

/-- The table with the nodes of a name. -/
def PitCsTree.fill (cfg : TableConfig) (p : PitCsTree) (name : Name) : PitCsTree :=
  { p with tree := (fillTreeToPrefix cfg p.tree name).1 }

/-- The nodes that are there stay as they are. -/
lemma fill_keeps (h : PitWf p) (cfg : TableConfig) (name : Name) : ∀ q ∈ p.tree.paths,
    q ∈ (p.fill cfg name).tree.paths ∧ (p.fill cfg name).tree.val q = p.tree.val q :=
  (fillTreeToPrefix_spec h cfg name).2.2.2

/-- The entry is one that the Interest is aggregated with. -/
structure PitCsTree.Joins (cfg : TableConfig) (p : PitCsTree) (interest : FwInterest)
    (hint : Option Name) (e : ℕ) : Prop where
  node : (p.entries e).node = some (cfg.nodeOf interest.name)
  aggregates : (p.entries e).aggregates interest hint = true

lemma ListedAt.tree (hl : ListedAt p node e p') :
    p'.tree = p.tree.modify node fun nd => { nd with pitEntries := nd.pitEntries ++ [e] } := by
  refine Trie.ext hl.paths (funext fun q => ?_)
  rcases eq_or_ne q node with rfl | hne
  · rw [Trie.modify_val_self, hl.own]
  · rw [Trie.modify_val_of_ne hne, hl.others q hne]

/-- The content store is the same, but for the nodes of the tree. -/
structure SameStore (p p' : PitCsTree) : Prop where
  csMap : p'.csMap = p.csMap
  csQueue : p'.csQueue = p.csQueue
  csLocations : p'.csLocations = p.csLocations
  nCsEntries : p'.nCsEntries = p.nCsEntries

/-- An entry `e` that was none of the PIT has been made for an Interest at a node. -/
structure Made (p : PitCsTree) (interest : FwInterest) (hint : Option Name) (node : List ℕ)
    (e : ℕ) (p' : PitCsTree) : Prop extends ListedAt p node e p' where
  unused : (p.entries e).node = none
  entry : p'.entries e = { (p'.entries e) with
    node := some node
    encname := (p.tree.val node).name
    canBePrefix := interest.canBePrefix
    mustBeFresh := interest.mustBeFresh
    forwardingHintNew := hint
    inRecords := []
    outRecords := []
    satisfied := false
    queued := false }
  tokens : p'.pitTokens = update p.pitTokens (pitTokenIdx (p'.entries e).token) (some e)
  queue : p'.pitExpiryQueue = p.pitExpiryQueue
  size : p'.nPitEntries = p.nPitEntries + 1
  store : SameStore p p'

lemma getEntry_store :
    SameStore p (p.getEntry pick).1 ∧ (p.getEntry pick).1.nPitEntries = p.nPitEntries := by
  simp only [getEntry]
  split_ifs <;> exact ⟨⟨rfl, rfl, rfl, rfl⟩, rfl⟩

lemma getEntry_cleared :
    ((p.getEntry pick).1.entries (p.getEntry pick).2).inRecords = []
      ∧ ((p.getEntry pick).1.entries (p.getEntry pick).2).outRecords = []
      ∧ (p.getEntry pick).1.pitExpiryQueue = p.pitExpiryQueue
      ∧ (p.getEntry pick).1.pitTokens = p.pitTokens := by
  simp only [getEntry]
  split_ifs <;> simp [onEntry, NameTreePitEntry.new]

lemma made_newEntry (h : PitWf p) : Made p interest hint node (p.newEntry interest hint node pick).2
      (p.newEntry interest hint node pick).1 := by
  have hgot := handedOut_getEntry h pick
  obtain ⟨hins, houts, hqueue, htokens⟩ := getEntry_cleared
  obtain ⟨hstore, hsize⟩ := getEntry_store
  refine ⟨listedAt_newEntry h node interest hint pick, ?_, ?_, ?_, hqueue, ?_, { hstore with }⟩
  · by_contra hnode
    exact hgot.notEntry (h.hasEntry_iff.mpr (Option.ne_none_iff_exists'.mp hnode))
  · simp [newEntry, onEntry, hins, houts]
  · simp [newEntry, onEntry, htokens]
  · simp [newEntry, onEntry, hsize]

/-- The table `p'` has the entry `e` for the Interest: an entry that it is aggregated with, or
one that is made for it as there is none. -/
inductive Inserts (cfg : TableConfig) (p : PitCsTree) (interest : FwInterest)
    (hint : Option Name) (e : ℕ) : PitCsTree → Prop
  | joined (hjoins : p.Joins cfg interest hint e) :
      Inserts cfg p interest hint e (p.fill cfg interest.name)
  | made {p' : PitCsTree} (hnone : ∀ e', ¬p.Joins cfg interest hint e')
      (hmade : Made (p.fill cfg interest.name) interest hint (cfg.nodeOf interest.name) e p') :
      Inserts cfg p interest hint e p'

lemma inserts_entryFor (h : PitWf p) (cfg : TableConfig) (interest : FwInterest)
    (hint : Option Name) (pick : ℕ) : Inserts cfg p interest hint
      (p.entryFor cfg interest hint pick).2 (p.entryFor cfg interest hint pick).1 := by
  have hwf : PitWf (p.fill cfg interest.name) := (grows_fillTreeToPrefix h cfg interest.name).wf
  obtain ⟨hsnd, hmem, -⟩ := fillTreeToPrefix_spec h cfg interest.name
  unfold entryFor
  dsimp only
  rw [hsnd]
  split
  · rename_i e hfind
    refine .joined ⟨?_, by simpa using List.find?_some hfind⟩
    exact ((hwf.nodes _ hmem).entry e (List.mem_of_find?_eq_some hfind)).1
  · rename_i hfind
    refine .made (fun e' hjoins => ?_) (made_newEntry hwf)
    exact List.find?_eq_none.mp hfind e' (hwf.listed e' _ hjoins.node).2 hjoins.aggregates

/-- A duplicate nonce is found in an entry that is there; only nodes are made. -/
lemma insertInterest_looped (h : PitWf p) {nonce : ℕ} {inFace : Face}
    (hinsert : p.insertInterest cfg interest nonce hint inFace pick = (p', e, true)) :
    p.Joins cfg interest hint e ∧ p' = p.fill cfg interest.name := by
  have hfound := inserts_entryFor h cfg interest hint pick
  simp only [insertInterest] at hinsert
  split_ifs at hinsert with hdup
  · cases hinsert
    generalize p.entryFor cfg interest hint pick = found at hfound hdup ⊢
    obtain ⟨q, e⟩ := found
    cases hfound with
    | joined hjoins => exact ⟨hjoins, rfl⟩
    | made hnone hmade =>
      rw [hmade.entry] at hdup
      simp at hdup
  · cases hinsert

/-- Else the expiration time of the entry is reset. -/
lemma insertInterest_reset (h : PitWf p) {nonce : ℕ} {inFace : Face}
    (hinsert : p.insertInterest cfg interest nonce hint inFace pick = (p', e, false)) :
    ∃ q, Inserts cfg p interest hint e q
      ∧ p' = q.onEntry e fun entry => { entry with expirationTime := 0 } := by
  have hfound := inserts_entryFor h cfg interest hint pick
  simp only [insertInterest] at hinsert
  split_ifs at hinsert
  · cases hinsert
  · cases hinsert
    exact ⟨_, hfound, rfl⟩

section

variable (hq : Inserts cfg p interest hint e q)
include hq

lemma Inserts.others {e' : ℕ} (hne : e' ≠ e) : q.entries e' = p.entries e' := by
  cases hq with
  | joined => rfl
  | made _ hmade => exact hmade.entries e' hne

lemma Inserts.inRecords {e' : ℕ} : (q.entries e').inRecords ⊆ (p.entries e').inRecords := by
  rcases eq_or_ne e' e with rfl | hne
  · cases hq with
    | joined => exact List.Subset.refl _
    | made _ hmade =>
      rw [hmade.entry]
      exact List.nil_subset _
  · rw [hq.others hne]
    exact List.Subset.refl _

omit hq in
/-- No in-record is made by `InsertInterest`. -/
lemma insertInterest_inRecords (h : PitWf p) {nonce : ℕ} {inFace : Face} {loop : Bool}
    (hinsert : p.insertInterest cfg interest nonce hint inFace pick = (p', e, loop)) (e' : ℕ) :
    (p'.entries e').inRecords ⊆ (p.entries e').inRecords := by
  cases loop with
  | true =>
    obtain ⟨-, rfl⟩ := insertInterest_looped h hinsert
    exact List.Subset.refl _
  | false =>
    obtain ⟨q, hq, rfl⟩ := insertInterest_reset h hinsert
    refine List.Subset.trans ?_ hq.inRecords
    rcases eq_or_ne e' e with rfl | hne
    · simp [onEntry]
    · simp [onEntry, hne]

lemma Inserts.canBePrefix : (q.entries e).canBePrefix = interest.canBePrefix := by
  cases hq with
  | joined hjoins =>
    have hagg := hjoins.aggregates
    simp only [NameTreePitEntry.aggregates, Bool.and_eq_true, beq_iff_eq] at hagg
    exact hagg.1.1
  | made _ hmade => rw [hmade.entry]

lemma Inserts.store : SameStore p q := by
  cases hq with
  | joined => exact ⟨rfl, rfl, rfl, rfl⟩
  | made _ hmade => exact { hmade.store with }

lemma Inserts.queue : q.pitExpiryQueue = p.pitExpiryQueue := by
  cases hq with
  | joined => rfl
  | made _ hmade => exact hmade.queue

end

/-! ### Removal -/

/-- What `RemoveInterest` does: nothing, or it drops an entry that is listed at its node. -/
lemma removeInterest_cases (h : PitWf p) :
    p.removeInterest e = p ∨ ∃ node, (p.entries e).node = some node ∧ node ∈ p.tree.paths
      ∧ e ∈ (p.tree.val node).pitEntries ∧ p.removeInterest e = p.dropEntry e node := by
  cases he : (p.entries e).node with
  | none => exact .inl (by simp [removeInterest, he])
  | some node =>
    obtain ⟨hnode, hlisted⟩ := h.listed e node he
    exact .inr ⟨node, rfl, hnode, hlisted, by simp [removeInterest, he, hlisted]⟩

end Mars
