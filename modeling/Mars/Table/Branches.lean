import Mars.Table.Operations
import Mathlib.Algebra.BigOperators.Ring.Finset

/-!
The branches of the name tree of the PIT and the content store.

`RemoveInterest` prunes the branch of an entry upwards; the eviction of data only clears its node.

* `Sized`: every node has the path of its name, no two entries of a node are for the same
  Interests, and the entries are counted; kept by every operation;
* `Trie.Live`: no leaf is without entries; kept by every operation but the eviction of the last
  entry of a leaf (`live_tableStep`);
* `table_branches`: what follows for the runs of the table.
-/

namespace Mars

open Function PitCsTreeNode Trie List PitCsTree Option

variable {cfg : TableConfig} {p p' : PitCsTree} {e : ℕ} {node : List ℕ} {data : FwData} {now : Time}

/-! ### The tree after an operation -/

/-- The nodes that `fillTreeToPrefix` makes have no entries. -/
lemma fillTreeToPrefix_new (h : PitWf p) {name : Name} :
    ∀ q ∈ (p.fill cfg name).tree.paths, q ∉ p.tree.paths →
      ((p.fill cfg name).tree.val q).pitEntries = [] :=
  fillTreeToPrefix_induction h (I := fun q nd => q ∉ p.tree.paths → nd.pitEntries = [])
    (fun _ _ _ _ _ => rfl) (fun _ hq hout => absurd hq hout)

/-- The entries of a node. -/
def PitCsTreeNode.size (nd : PitCsTreeNode) : ℕ := nd.pitEntries.length

lemma weight_fill (h : PitWf p) (cfg : TableConfig) (name : Name) :
    (p.fill cfg name).tree.weight size = p.tree.weight size := by
  have hkeeps := fill_keeps h cfg name
  refine weight_eq_of_subset (fun q hq => (hkeeps q hq).1) (fun q hq => ?_) fun q hq hout => ?_
  · exact congrArg size (hkeeps q hq).2
  · rw [size, fillTreeToPrefix_new h q hq hout, length_nil]

/-- Of a filled tree only the node of the name may be an empty leaf. -/
lemma fill_live (h : PitWf p) (hlive : p.tree.Live PitCsTreeNode.isEmpty) (cfg : TableConfig)
    (name : Name) :
    (p.fill cfg name).tree.LiveBut PitCsTreeNode.isEmpty (cfg.nodeOf name) := by
  obtain ⟨hmem, hdepth, -, hfree⟩ := findLongestPrefixEntry_spec h cfg name
  rw [← (fillTreeToPrefix_spec h cfg name).1, fill, fillTreeToPrefix, hdepth]
  exact grow_live hmem hfree (hlive.liveBut)

/-! ### Entries -/

/-- Two entries are for the same Interests. -/
structure SameKey (entry entry' : NameTreePitEntry) : Prop where
  canBePrefix : entry.canBePrefix = entry'.canBePrefix
  mustBeFresh : entry.mustBeFresh = entry'.mustBeFresh
  hint : entry.forwardingHintNew.getD [] = entry'.forwardingHintNew.getD []

/-- Every node has the path of its name, no two entries of a node are for the same Interests, and
the entries are counted. -/
structure Sized (cfg : TableConfig) (p : PitCsTree) : Prop where
  labelled : ∀ node ∈ p.tree.paths, cfg.nodeOf (p.tree.val node).name = node
  distinct : ∀ e e' node, (p.entries e).node = some node → (p.entries e').node = some node →
    SameKey (p.entries e) (p.entries e') → e = e'
  size : p.nPitEntries = p.tree.weight size

lemma sized_new : Sized cfg .new where
  labelled := fun node hnode => by
    obtain rfl : node = [] := Finset.mem_singleton.mp hnode
    rfl
  distinct := fun _ _ _ h => nomatch h
  size := by simp [new, weight, root, size]

/-- The nodes keep their names, and the entries what they are for. -/
lemma Sized.congr (h : Sized cfg p) (hsub : p'.tree.paths ⊆ p.tree.paths)
    (hname : ∀ node, (p'.tree.val node).name = (p.tree.val node).name)
    (hentries : ∀ e node, (p'.entries e).node = some node → (p.entries e).node = some node
      ∧ SameKey (p'.entries e) (p.entries e))
    (hsize : p'.nPitEntries = p'.tree.weight PitCsTreeNode.size) : Sized cfg p' where
  labelled := fun node hnode => by
    rw [hname]
    exact h.labelled node (hsub hnode)
  distinct := fun e e' node he he' hkey => by
    obtain ⟨hn, hk⟩ := hentries e node he
    obtain ⟨hn', hk'⟩ := hentries e' node he'
    refine h.distinct e e' node hn hn' ⟨?_, ?_, ?_⟩
    · rw [← hk.canBePrefix, hkey.canBePrefix, hk'.canBePrefix]
    · rw [← hk.mustBeFresh, hkey.mustBeFresh, hk'.mustBeFresh]
    · rw [← hk.hint, hkey.hint, hk'.hint]
  size := hsize

lemma SameKey.refl (entry : NameTreePitEntry) : SameKey entry entry := ⟨rfl, rfl, rfl⟩

lemma Sized.fill (hwf : PitWf p) (h : Sized cfg p) (name : Name) : Sized cfg (p.fill cfg name) where
  labelled := fillTreeToPrefix_induction hwf (I := fun q nd => cfg.nodeOf nd.name = q)
    (fun q nd c hnd => by
      simp only [TableConfig.nodeOf, TableConfig.keys] at hnd ⊢
      simp [child, hnd]) h.labelled
  distinct := h.distinct
  size := by
    rw [weight_fill hwf]
    exact h.size

/-- A new entry is for other Interests than those that are at the node. -/
lemma Sized.inserts {interest : FwInterest} {hint : Option Name} (hwf : PitWf p)
    (h : Sized cfg p) (hi : Inserts cfg p interest hint e p') : Sized cfg p' := by
  have hfill := h.fill hwf interest.name
  obtain ⟨-, hmem, -⟩ := fillTreeToPrefix_spec hwf cfg interest.name
  cases hi with
  | joined => exact hfill
  | made hnone hmade =>
    have hname : ∀ q, (p'.tree.val q).name = ((p.fill cfg interest.name).tree.val q).name := by
      rw [hmade.tree]
      exact Trie.modify_val_congr PitCsTreeNode.name (fun _ => by rfl) _
    -- an entry at the same node with the same key would have been joined
    have hother : ∀ e' node, e' ≠ e → (p'.entries e').node = some node →
        (p'.entries e).node = some node → ¬SameKey (p'.entries e') (p'.entries e) := by
      intro e' node hne hnode hnew hkey
      rw [hmade.entry] at hnew hkey
      rw [hmade.entries e' hne] at hnode hkey
      refine hnone e' ⟨hnode.trans hnew.symm, ?_⟩
      have hcan : (p.entries e').canBePrefix = interest.canBePrefix := hkey.canBePrefix
      have hmust : (p.entries e').mustBeFresh = interest.mustBeFresh := hkey.mustBeFresh
      have hhint : (p.entries e').forwardingHintNew.getD [] = hint.getD [] := hkey.hint
      simp [NameTreePitEntry.aggregates, hcan, hmust, hhint]
    refine ⟨fun q hq => ?_, fun e₁ e₂ node h₁ h₂ hkey => ?_, ?_⟩
    · rw [hname]
      exact hfill.labelled q (hmade.paths ▸ hq)
    · rcases eq_or_ne e₁ e with rfl | hne₁
      · by_contra hne
        exact hother e₂ node (Ne.symm hne) h₂ h₁
          ⟨hkey.canBePrefix.symm, hkey.mustBeFresh.symm, hkey.hint.symm⟩
      · rcases eq_or_ne e₂ e with rfl | hne₂
        · exact absurd hkey (hother e₁ node hne₁ h₁ h₂)
        · rw [hmade.entries e₁ hne₁] at h₁ hkey
          rw [hmade.entries e₂ hne₂] at h₂ hkey
          exact h.distinct e₁ e₂ node h₁ h₂ hkey
    · set nd := (p.fill cfg interest.name).tree.val (cfg.nodeOf interest.name)
      have hmore : PitCsTreeNode.size { nd with pitEntries := nd.pitEntries ++ [e] }
          = PitCsTreeNode.size nd + 1 := List.length_append
      have hweight : p'.tree.weight PitCsTreeNode.size + PitCsTreeNode.size nd
          = (p.fill cfg interest.name).tree.weight PitCsTreeNode.size
            + PitCsTreeNode.size { nd with pitEntries := nd.pitEntries ++ [e] } := by
        rw [hmade.tree]
        exact Trie.weight_modify hmem
      have hsize := hfill.size
      rw [hmade.size]
      omega

/-! ### Removal -/

lemma Sized.removeInterest (hwf : PitWf p) (h : Sized cfg p) : Sized cfg (p.removeInterest e) := by
  rcases removeInterest_cases hwf with heq | ⟨node, he, hnode, hlisted, heq⟩
  · rw [heq]
    exact h
  · have hval : (p.dropEntry e node).tree.val = (p.unlisted e node).val := Trie.val_prune
    rw [heq]
    refine h.congr Trie.prune_subset (fun q => ?_) (fun e' q hq => ?_) ?_
    · rw [hval]
      exact Trie.modify_val_congr PitCsTreeNode.name (fun _ => by rfl) node q
    · rcases eq_or_ne e' e with rfl | hne
      · simp [PitCsTree.dropEntry, PitCsTree.onEntry] at hq
      · have hsame : (p.dropEntry e node).entries e' = p.entries e' := update_of_ne hne _ _
        rw [hsame] at hq ⊢
        exact ⟨hq, .refl _⟩
    · have hprune : (p.dropEntry e node).tree.weight PitCsTreeNode.size
          = (p.unlisted e node).weight PitCsTreeNode.size := by
        refine Trie.weight_prune fun nd hempty => ?_
        simp only [PitCsTreeNode.isEmpty, Bool.and_eq_true, List.isEmpty_iff] at hempty
        rw [PitCsTreeNode.size, hempty.1, List.length_nil]
      have hless : PitCsTreeNode.size { p.tree.val node with
          pitEntries := swapRemove (p.tree.val node).pitEntries e } + 1
            = PitCsTreeNode.size (p.tree.val node) := by
        rw [PitCsTreeNode.size, (perm_swapRemove hlisted).length_eq,
          List.length_erase_of_mem hlisted]
        exact Nat.sub_add_cancel (List.length_pos_of_mem hlisted)
      have hweight : (p.unlisted e node).weight PitCsTreeNode.size
            + PitCsTreeNode.size (p.tree.val node)
          = p.tree.weight PitCsTreeNode.size + PitCsTreeNode.size { p.tree.val node with
            pitEntries := swapRemove (p.tree.val node).pitEntries e } :=
        Trie.weight_modify hnode
      have hsize := h.size
      have hdropped : (p.dropEntry e node).nPitEntries = p.nPitEntries - 1 := rfl
      rw [hprune, hdropped]
      omega

lemma removeInterest_live (hwf : PitWf p) (hlive : p.tree.Live PitCsTreeNode.isEmpty) :
    (p.removeInterest e).tree.Live PitCsTreeNode.isEmpty := by
  rcases removeInterest_cases hwf with heq | ⟨node, he, hnode, hlisted, heq⟩
  · rw [heq]
    exact hlive
  · rw [heq]
    refine prune_live fun q hq hroot hne hleaf => ?_
    rw [unlisted, modify_val_of_ne hne]
    exact hlive q hq hroot hleaf

/-! ### Insertion of data -/

/-- The tree of a table that has only changed CS entries. -/
lemma Sized.modifyCs (h : Sized cfg p) (node : List ℕ) (csEntry : Option ℕ)
    (htree : p'.tree = p.tree.modify node fun nd => { nd with csEntry := csEntry })
    (hentries : p'.entries = p.entries) (hsize : p'.nPitEntries = p.nPitEntries) :
    Sized cfg p' := by
  refine h.congr (by rw [htree, Trie.modify_paths]) (fun q => ?_) (fun e q hq => ?_) ?_
  · rw [htree]
    exact Trie.modify_val_congr PitCsTreeNode.name (fun _ => by rfl) node q
  · rw [hentries] at hq ⊢
    exact ⟨hq, .refl _⟩
  · rw [hsize, h.size, Trie.weight, Trie.weight, htree, Trie.modify_paths]
    refine congrArg _ (Finset.sum_congr rfl fun q _ => Eq.symm ?_)
    exact Trie.modify_val_congr PitCsTreeNode.size (fun _ => by rfl) node q

lemma storeData_tree (h : PitWf p) :
    (p.storeData cfg data now).tree
      = (p.fill cfg data.name).tree.modify (cfg.nodeOf data.name) fun nd =>
        { nd with csEntry := some (cfg.nameHash data.name) } := by
  rw [← (fillTreeToPrefix_spec h cfg data.name).1]
  rfl

lemma Sized.storeData (hwf : PitWf p) (h : Sized cfg p) (data : FwData) (now : Time) :
    Sized cfg (p.storeData cfg data now) :=
  (h.fill hwf data.name).modifyCs _ _ (storeData_tree hwf) rfl rfl

lemma storeData_live (hwf : PitWf p) (hlive : p.tree.Live PitCsTreeNode.isEmpty)
    (cfg : TableConfig) (data : FwData) (now : Time) :
    (p.storeData cfg data now).tree.Live PitCsTreeNode.isEmpty := by
  rw [storeData_tree hwf]
  refine (fill_live hwf hlive cfg data.name).modify ?_
  simp [PitCsTreeNode.isEmpty]

/-- The front of a queue with an index that is not in it: the old front, or the index itself. -/
lemma storeData_queue (hnot : cfg.nameHash data.name ∉ p.csQueue) :
    (p.storeData cfg data now).csQueue = p.csQueue ++ [cfg.nameHash data.name] := by
  change touch p.csQueue _ = _
  rw [touch, erase_of_not_mem hnot]

/-- The insertion of data is a refresh, or there is room, or the oldest entry is at a node that
has a PIT entry or children. -/
def EvictionSpares (cfg : TableConfig) (p : PitCsTree) : TableOp → Prop
  | .insertData data _ =>
    p.csMap (cfg.nameHash data.name) ≠ none ∨ p.csQueue.length < cfg.csCapacity
      ∨ ∃ oldest ∈ p.csQueue.head?, ∀ entry ∈ p.csMap oldest,
        (p.tree.val entry.node).pitEntries ≠ [] ∨ p.tree.children entry.node ≠ ∅
  | _ => True

lemma Sized.insertData {data : FwData} {now : Time} (hapart : p.Apart cfg data.name)
    (hwf : TableWf cfg p) (h : Sized cfg p) : Sized cfg (p.insertData cfg data now) := by
  have hinserts : InsertsData cfg p data now (p.insertData cfg data now) := hwf.cs.insertsData
  generalize p.insertData cfg data now = p' at hinserts ⊢
  cases hinserts with
  | refreshed entry hsome => exact { h with }
  | stored hnone hroom => exact h.storeData hwf.pit data now
  | replaced hnone hfull =>
    have hstored := hwf.cs.storeData hapart hwf.pit hnone now
    obtain ⟨oldest, rest, hqueue⟩ := exists_cons_of_ne_nil
      (show (p.storeData cfg data now).csQueue ≠ [] from append_ne_nil_of_right_ne_nil _ (by simp))
    obtain ⟨entry, hentry⟩ := ne_none_iff_exists'.mp
      ((hstored.queued oldest).mp (hqueue ▸ mem_cons_self))
    have hevict := evictOldest_eq hqueue hentry
    refine (h.storeData hwf.pit data now).modifyCs entry.node none ?_ ?_ ?_
    all_goals rw [hevict]

/-- The node of the entry that is evicted is no empty leaf. -/
lemma insertData_live (hwf : TableWf cfg p) (hlive : p.tree.Live PitCsTreeNode.isEmpty)
    (hspares : EvictionSpares cfg p (.insertData data now)) :
    (p.insertData cfg data now).tree.Live PitCsTreeNode.isEmpty := by
  have hinserts : InsertsData cfg p data now (p.insertData cfg data now) := hwf.cs.insertsData
  generalize p.insertData cfg data now = p' at hinserts ⊢
  cases hinserts with
  | refreshed entry hsome => exact hlive
  | stored hnone hroom => exact storeData_live hwf.pit hlive cfg data now
  | replaced hnone hfull =>
    obtain ⟨oldest, holdest, hnode⟩ :=
      (hspares.resolve_left fun hne => hne hnone).resolve_left (by omega)
    have hnot : cfg.nameHash data.name ∉ p.csQueue := fun hin => (hwf.cs.queued _).mp hin hnone
    obtain ⟨rest, hrest⟩ := List.head?_eq_some_iff.mp (Option.mem_def.mp holdest)
    have hin : oldest ∈ p.csQueue := hrest ▸ List.mem_cons_self
    obtain ⟨entry, hentry⟩ := Option.ne_none_iff_exists'.mp ((hwf.cs.queued oldest).mp hin)
    have hqueue : (p.storeData cfg data now).csQueue
        = oldest :: (rest ++ [cfg.nameHash data.name]) := by
      rw [storeData_queue hnot, hrest, List.cons_append]
    have hmap : (p.storeData cfg data now).csMap oldest = some entry := by
      have hne : oldest ≠ cfg.nameHash data.name := fun heq => hnot (heq ▸ hin)
      exact (update_of_ne hne _ _).trans hentry
    rw [evictOldest_eq hqueue hmap]
    have hold := storeData_live hwf.pit hlive cfg data now
    obtain ⟨hmem, -⟩ := (hwf.cs.stored entry.node oldest).mpr ⟨entry, hentry, rfl⟩
    obtain ⟨-, hval⟩ := fill_keeps hwf.pit cfg data.name entry.node hmem
    intro q hq hroot hleaf
    dsimp only at hq hleaf ⊢
    rcases eq_or_ne q entry.node with rfl | hne
    · have hlisted : ((p.storeData cfg data now).tree.val entry.node).pitEntries
          = (p.tree.val entry.node).pitEntries := by
        rw [storeData_tree hwf.pit, ← hval]
        exact Trie.modify_val_congr PitCsTreeNode.pitEntries (fun _ => by rfl) _ _
      have hempty : p.tree.children entry.node = ∅ := by
        refine Finset.eq_empty_of_forall_notMem fun k hk => ?_
        refine Finset.notMem_empty k (hleaf ▸ Trie.mem_children.mpr ?_)
        rw [Trie.modify_paths, storeData_tree hwf.pit, Trie.modify_paths]
        exact (fill_keeps hwf.pit cfg data.name _ (Trie.mem_children.mp hk)).1
      have hfull := (hnode entry hentry).resolve_right fun hne => hne hempty
      rw [Trie.modify_val_self]
      simp [PitCsTreeNode.isEmpty, hlisted, hfull]
    · rw [Trie.modify_val_of_ne hne]
      exact hold q hq hroot hleaf

/-! ### Runs -/

lemma csQueue_tree_findMatching (cfg : TableConfig) (p : PitCsTree) (interest : FwInterest)
    (now : Time) (wish : List ℕ) :
    (p.findMatchingDataFromCS cfg interest now wish).1.tree = p.tree
      ∧ (p.findMatchingDataFromCS cfg interest now wish).1.entries = p.entries
      ∧ (p.findMatchingDataFromCS cfg interest now wish).1.nPitEntries = p.nPitEntries := by
  rcases findMatchingDataFromCS_cases cfg p interest now wish with heq | ⟨index, heq⟩
  · rw [heq]
    exact ⟨rfl, rfl, rfl⟩
  · rw [heq]
    dsimp only
    split_ifs <;> exact ⟨rfl, rfl, rfl⟩

/-- The entry of an Interest, and the table with it. -/
lemma insertInterest_inserts (h : PitWf p) {interest : FwInterest} {nonce : ℕ} {hint : Option Name}
    {inFace : Face} {pick : ℕ} :
    ∃ e q, Inserts cfg p interest hint e q
      ∧ (p.insertInterest cfg interest nonce hint inFace pick).1.tree = q.tree
      ∧ (p.insertInterest cfg interest nonce hint inFace pick).1.nPitEntries = q.nPitEntries
      ∧ ∀ e', ((p.insertInterest cfg interest nonce hint inFace pick).1.entries e').node
          = (q.entries e').node
        ∧ SameKey ((p.insertInterest cfg interest nonce hint inFace pick).1.entries e')
          (q.entries e') := by
  rcases hinsert : p.insertInterest cfg interest nonce hint inFace pick with ⟨p', e, loop⟩
  cases loop with
  | true =>
    obtain ⟨hjoins, rfl⟩ := insertInterest_looped h hinsert
    exact ⟨e, _, .joined hjoins, rfl, rfl, fun e' => ⟨rfl, .refl _⟩⟩
  | false =>
    obtain ⟨q, hq, rfl⟩ := insertInterest_reset h hinsert
    refine ⟨e, q, hq, rfl, rfl, fun e' => ?_⟩
    simp only [onEntry]
    rcases eq_or_ne e' e with rfl | hne
    · rw [update_self]
      exact ⟨rfl, rfl, rfl, rfl⟩
    · rw [update_of_ne hne]
      exact ⟨rfl, .refl _⟩

/-- The node of an Interest has its entry, so it is no empty leaf. -/
lemma inserts_live {interest : FwInterest} {hint : Option Name} (hwf : PitWf p)
    (hlive : p.tree.Live PitCsTreeNode.isEmpty) (hi : Inserts cfg p interest hint e p') :
    p'.tree.Live PitCsTreeNode.isEmpty := by
  have hfill := fill_live hwf hlive cfg interest.name
  cases hi with
  | joined hjoins =>
    obtain ⟨hmem, hlisted⟩ := hwf.listed e _ hjoins.node
    obtain ⟨-, hval⟩ := fill_keeps hwf cfg interest.name _ hmem
    have hsame : (p.fill cfg interest.name).tree.modify (cfg.nodeOf interest.name) id
        = (p.fill cfg interest.name).tree := Trie.ext rfl (update_eq_self _ _)
    rw [← hsame]
    refine hfill.modify ?_
    rw [id, hval]
    simp [PitCsTreeNode.isEmpty, List.ne_nil_of_mem hlisted]
  | made hnone hmade =>
    rw [hmade.tree]
    refine hfill.modify ?_
    simp [PitCsTreeNode.isEmpty]

lemma sized_tableStep (hwf : TableWf cfg p) (h : Sized cfg p) {op : TableOp}
    (hop : op.Apart cfg p) : Sized cfg (tableStep cfg p op) := by
  cases op with
  | insertInterest interest nonce hint inFace pick =>
    obtain ⟨e, q, hq, htree, hsize, hentries⟩ :=
      insertInterest_inserts hwf.pit
    have hsized := h.inserts hwf.pit hq
    rw [tableStep]
    refine hsized.congr (htree ▸ subset_rfl) (fun q => by rw [htree]) (fun e' node he' => ?_) ?_
    · exact ⟨(hentries e').1 ▸ he', (hentries e').2⟩
    · rw [hsize, htree]
      exact hsized.size
  | removeInterest e => exact h.removeInterest hwf.pit
  | findInterestExactMatch interest => exact h
  | findInterestPrefixMatchByData name token => exact h
  | insertData data now => exact h.insertData hop hwf
  | findMatchingDataFromCS interest now wish =>
    obtain ⟨htree, hentries, hsize⟩ := csQueue_tree_findMatching cfg p interest now wish
    rw [tableStep]
    refine h.congr (htree ▸ subset_rfl) (fun q => by rw [htree]) (fun e node he => ?_) ?_
    · rw [hentries] at he ⊢
      exact ⟨he, .refl _⟩
    · rw [hsize, htree]
      exact h.size

/-- **What one operation keeps**: no leaf is without entries. -/
lemma live_tableStep (hwf : TableWf cfg p) (hlive : p.tree.Live PitCsTreeNode.isEmpty)
    {op : TableOp} (hop : EvictionSpares cfg p op) :
    (tableStep cfg p op).tree.Live PitCsTreeNode.isEmpty := by
  cases op with
  | insertInterest interest nonce hint inFace pick =>
    obtain ⟨e, q, hq, htree, -, -⟩ :=
      insertInterest_inserts hwf.pit
    rw [tableStep, htree]
    exact inserts_live hwf.pit hlive hq
  | removeInterest e => exact removeInterest_live hwf.pit hlive
  | findInterestExactMatch interest => exact hlive
  | findInterestPrefixMatchByData name token => exact hlive
  | insertData data now => exact insertData_live hwf hlive hop
  | findMatchingDataFromCS interest now wish =>
    rw [tableStep, (csQueue_tree_findMatching cfg p interest now wish).1]
    exact hlive

/-- The nodes with a CS entry are as many as the entries. -/
lemma CsWf.card_nodes {bound : ℕ} (h : CsWf cfg bound p) :
    (p.tree.paths.filter fun node => (p.tree.val node).csEntry ≠ none).card
      = p.csQueue.length := by
  rw [← toFinset_card_of_nodup h.nodup]
  refine (Finset.card_bij (fun i _ => ((p.csMap i).map (·.node)).getD []) ?_ ?_ ?_).symm
  · intro i hi
    obtain ⟨entry, hentry⟩ := ne_none_iff_exists'.mp
      ((h.queued i).mp (mem_toFinset.mp hi))
    obtain ⟨hmem, hcs⟩ := (h.stored entry.node i).mpr ⟨entry, hentry, rfl⟩
    simp [hentry, hmem, hcs]
  · intro i hi j hj heq
    obtain ⟨entry, hentry⟩ := ne_none_iff_exists'.mp
      ((h.queued i).mp (mem_toFinset.mp hi))
    obtain ⟨entry', hentry'⟩ := ne_none_iff_exists'.mp
      ((h.queued j).mp (mem_toFinset.mp hj))
    have hi' := ((h.stored entry.node i).mpr ⟨entry, hentry, rfl⟩).2
    have hj' := ((h.stored entry'.node j).mpr ⟨entry', hentry', rfl⟩).2
    simp only [hentry, hentry', map_some, getD_some] at heq
    rw [← heq, hi'] at hj'
    exact some_inj.mp hj'
  · intro node hnode
    obtain ⟨hmem, hcs⟩ := Finset.mem_filter.mp hnode
    obtain ⟨i, hi⟩ := ne_none_iff_exists'.mp hcs
    obtain ⟨entry, hentry, rfl⟩ := (h.stored node i).mp ⟨hmem, hi⟩
    have hin : i ∈ p.csQueue := (h.queued i).mpr (hentry ▸ some_ne_none entry)
    exact ⟨i, mem_toFinset.mpr hin, by simp [hentry]⟩

/-- **The branches of the table**, over any operations with hashes that tell new Data from what is
stored.  There is at most one PIT entry for a name, `CanBePrefix`, `MustBeFresh` and forwarding
hint; `PitSize` counts the PIT entries of the tree and `CsSize` the nodes with a CS entry.  As long
as no eviction leaves a leaf without entries, every leaf but the root has a PIT entry or a CS
entry. -/
theorem table_branches (cfg : TableConfig) (ops : List TableOp)
    (hapart : RunsApart cfg ops) :
    (∀ e e', (tableRun cfg ops).HasEntry e → (tableRun cfg ops).HasEntry e' →
        ((tableRun cfg ops).entries e).encname = ((tableRun cfg ops).entries e').encname →
        SameKey ((tableRun cfg ops).entries e) ((tableRun cfg ops).entries e') → e = e')
      ∧ (tableRun cfg ops).nPitEntries = ∑ node ∈ (tableRun cfg ops).tree.paths,
          (((tableRun cfg ops).tree.val node).pitEntries.length : ℤ)
      ∧ (tableRun cfg ops).nCsEntries = ((tableRun cfg ops).tree.paths.filter fun node =>
          ((tableRun cfg ops).tree.val node).csEntry ≠ none).card
      ∧ (Steps.Guarded (tableStep cfg) (EvictionSpares cfg) .new ops →
        ∀ node ∈ (tableRun cfg ops).tree.paths, node ≠ [] →
          (tableRun cfg ops).tree.children node = ∅ →
          ((tableRun cfg ops).tree.val node).pitEntries ≠ []
            ∨ ((tableRun cfg ops).tree.val node).csEntry ≠ none) := by
  have hrun : TableWf cfg (tableRun cfg ops) ∧ Sized cfg (tableRun cfg ops) :=
    Steps.guarded_invariant (I := fun p => TableWf cfg p ∧ Sized cfg p)
      (fun _ _ h hop => ⟨tableWf_tableStep h.1 hop, sized_tableStep h.1 h.2 hop⟩)
      ⟨⟨pitWf_new, csWf_new⟩, sized_new⟩ hapart
  obtain ⟨hwf, hsized⟩ := hrun
  refine ⟨fun e e' he he' heq hkey => ?_, ?_, ?_, fun hops node hnode hroot hleaf => ?_⟩
  · obtain ⟨node, hmem, hin⟩ := he
    obtain ⟨node', hmem', hin'⟩ := he'
    obtain ⟨hown, hencname, -⟩ := (hwf.pit.nodes node hmem).entry e hin
    obtain ⟨hown', hencname', -⟩ := (hwf.pit.nodes node' hmem').entry e' hin'
    obtain rfl : node = node' := by
      rw [← hsized.labelled node hmem, ← hsized.labelled node' hmem', ← hencname, ← hencname', heq]
    exact hsized.distinct e e' node hown hown' hkey
  · rw [hsized.size, weight]
    exact Nat.cast_sum _ _
  · rw [hwf.cs.count, hwf.cs.card_nodes]
  · have hlive : TableWf cfg (tableRun cfg ops)
        ∧ (tableRun cfg ops).tree.Live PitCsTreeNode.isEmpty :=
      Steps.guarded_invariant
        (I := fun p => TableWf cfg p ∧ p.tree.Live PitCsTreeNode.isEmpty)
        (fun _ _ h hop => ⟨tableWf_tableStep h.1 hop.1, live_tableStep h.1 h.2 hop.2⟩)
        ⟨⟨pitWf_new, csWf_new⟩, fun q hq hroot => absurd (Finset.mem_singleton.mp hq) hroot⟩
        (hapart.and hops)
    have hfull := hlive.2 node hnode hroot hleaf
    simpa [PitCsTreeNode.isEmpty, or_iff_not_imp_left, Option.isSome_iff_ne_none] using hfull

/-- An Interest for `/b`, and Data for `/b`, `/a/1` and `/c`, of which the last evicts the
first. -/
def pendingAndEvicted : List TableOp :=
  [.insertInterest (plainInterest [['b']] 7) 7 none 9 0, .insertData (dataNamed [['b']]) 0,
    .insertData (dataNamed [['a'], ['1']]) 0, .insertData (dataNamed [['c']]) 0]

theorem table_branches_evicted :
    let p := tableRun twoDataTable pendingAndEvicted
    p.csMap (indexOf [['b']]) = none ∧ p.nPitEntries = 1 ∧ p.nCsEntries = 2
      ∧ ∀ node ∈ p.tree.paths, node ≠ [] → p.tree.children node = ∅ →
        (p.tree.val node).pitEntries ≠ [] ∨ (p.tree.val node).csEntry ≠ none := by
  obtain ⟨-, -, -, hleaf⟩ := table_branches twoDataTable pendingAndEvicted
    (runsApart_twoDataTable _)
  refine ⟨by decide +kernel, by decide +kernel, by decide +kernel, hleaf ?_⟩
  exact ⟨trivial, .inr (.inl (by decide +kernel)), .inr (.inl (by decide +kernel)),
    .inr (.inr (by decide +kernel)), trivial⟩

/-- Data for `/a/1`, `/b` and `/c`: the last evicts the first, whose node stays behind as a leaf
without entries. -/
theorem eviction_leaves_dead_branch :
    let p := tableRun twoDataTable [.insertData (dataNamed [['a'], ['1']]) 0,
      .insertData (dataNamed [['b']]) 0, .insertData (dataNamed [['c']]) 0]
    let node := twoDataTable.nodeOf [['a'], ['1']]
    node ∈ p.tree.paths ∧ node ≠ [] ∧ p.tree.children node = ∅
      ∧ (p.tree.val node).pitEntries = [] ∧ (p.tree.val node).csEntry = none := by
  decide +kernel

end Mars
