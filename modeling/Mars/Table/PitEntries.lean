import Mars.Table.PitCs

/-!
Which entries are in the PIT, and what the operations of the table do to them.

* `HasEntry`: an entry is listed at a node of the tree; `Backs`: it is, and has a given name;
* `PitWf`: an entry is listed at one node, its own, or is in the pool, or is in neither;
* `Grows`: a step that keeps the table well formed and every entry in it.  All operations do
  but `removeInterest`, which takes out one entry (`removeInterest_spec`).
-/

namespace Mars

open Function List PitCsTree Trie PitCsTreeNode

variable {cfg : TableConfig} {p p' p'' : PitCsTree} {e : ℕ} {node : List ℕ} {name : Name}

/-- The entry is one of the PIT: it is listed at a node of the tree. -/
def PitCsTree.HasEntry (p : PitCsTree) (e : ℕ) : Prop :=
  ∃ node ∈ p.tree.paths, e ∈ (p.tree.val node).pitEntries

instance (p : PitCsTree) (e : ℕ) : Decidable (p.HasEntry e) :=
  inferInstanceAs (Decidable (∃ node ∈ p.tree.paths, e ∈ (p.tree.val node).pitEntries))

/-- The entry is one of the PIT, for the name. -/
def PitCsTree.Backs (p : PitCsTree) (e : ℕ) (name : Name) : Prop :=
  p.HasEntry e ∧ (p.entries e).encname = name

instance (p : PitCsTree) (e : ℕ) (name : Name) : Decidable (p.Backs e name) :=
  inferInstanceAs (Decidable (p.HasEntry e ∧ (p.entries e).encname = name))

/-- A node has the depth and the name of its path, and the entries listed there are its own. -/
structure NodeOk (p : PitCsTree) (node : List ℕ) (nd : PitCsTreeNode) : Prop where
  name_length : nd.name.length = node.length
  depth : nd.depth = node.length
  nodup : nd.pitEntries.Nodup
  entry : ∀ e ∈ nd.pitEntries, (p.entries e).node = some node
    ∧ (p.entries e).encname = nd.name ∧ e < p.made ∧ e ∉ p.pool

/-- An entry is listed at the node it points to and at no other, and none that is listed is in
the pool. -/
structure PitWf (p : PitCsTree) : Prop where
  nodes : ∀ node ∈ p.tree.paths, NodeOk p node (p.tree.val node)
  listed : ∀ e node, (p.entries e).node = some node →
    node ∈ p.tree.paths ∧ e ∈ (p.tree.val node).pitEntries
  pool_nodup : p.pool.Nodup
  pool_lt : ∀ e ∈ p.pool, e < p.made

lemma pitWf_new : PitWf .new where
  nodes := fun node hnode => by
    obtain rfl : node = [] := Finset.mem_singleton.mp hnode
    exact ⟨rfl, rfl, nodup_nil, fun e he => absurd he not_mem_nil⟩
  listed := fun e node h => absurd h (Option.some_ne_none node).symm
  pool_nodup := nodup_nil
  pool_lt := fun e he => absurd he not_mem_nil

/-- An entry of the PIT is not handed out again. -/
lemma PitWf.notMem_pool (h : PitWf p) (he : p.HasEntry e) : e < p.made ∧ e ∉ p.pool := by
  obtain ⟨node, hnode, hmem⟩ := he
  exact ((h.nodes node hnode).entry e hmem).2.2

/-- A step that keeps every entry of the PIT. -/
structure Grows (p p' : PitCsTree) : Prop where
  wf : PitWf p'
  backs : ∀ e name, p.Backs e name → p'.Backs e name

lemma Grows.refl (h : PitWf p) : Grows p p := ⟨h, fun _ _ hb => hb⟩

lemma Grows.trans (h : Grows p p') (h' : Grows p' p'') : Grows p p'' :=
  ⟨h'.wf, fun e name hb => h'.backs e name (h.backs e name hb)⟩

lemma Grows.andThen (h : Grows p p') (h' : PitWf p' → Grows p' p'') : Grows p p'' :=
  h.trans (h' h.wf)

/-! ### Steps that leave the PIT as it is -/

/-- The tree and the pool are the same, and the entries have the same nodes and names. -/
structure SamePit (p p' : PitCsTree) : Prop where
  tree : p'.tree = p.tree
  pool : p'.pool = p.pool
  made : p'.made = p.made
  home : ∀ e, (p'.entries e).node = (p.entries e).node
    ∧ (p'.entries e).encname = (p.entries e).encname

lemma SamePit.grows (h : PitWf p) (hs : SamePit p p') : Grows p p' where
  wf := {
    nodes := fun node hnode => by
      rw [hs.tree] at hnode ⊢
      refine { h.nodes node hnode with entry := fun e he => ?_ }
      rw [(hs.home e).1, (hs.home e).2, hs.pool, hs.made]
      exact (h.nodes node hnode).entry e he
    listed := fun e node hnode => by
      rw [(hs.home e).1] at hnode
      rw [hs.tree]
      exact h.listed e node hnode
    pool_nodup := hs.pool ▸ h.pool_nodup
    pool_lt := by rw [hs.pool, hs.made]; exact h.pool_lt }
  backs := fun e name hb => by
    unfold Backs HasEntry at hb ⊢
    rwa [hs.tree, (hs.home e).2]

/-- A change of the table that concerns neither the tree nor the entries. -/
lemma grows_of_eq (h : PitWf p) (htree : p'.tree = p.tree) (hentries : p'.entries = p.entries)
    (hpool : p'.pool = p.pool) (hmade : p'.made = p.made) : Grows p p' :=
  SamePit.grows h ⟨htree, hpool, hmade, fun e => by rw [hentries]; exact ⟨rfl, rfl⟩⟩

/-- A change of an entry that leaves its node and its name. -/
lemma samePit_onEntry (p : PitCsTree) (e : ℕ) {f : NameTreePitEntry → NameTreePitEntry}
    (hnode : (f (p.entries e)).node = (p.entries e).node)
    (hname : (f (p.entries e)).encname = (p.entries e).encname) : SamePit p (p.onEntry e f) where
  tree := rfl
  pool := rfl
  made := rfl
  home := (forall_update_iff p.entries fun e' entry => entry.node = (p.entries e').node
    ∧ entry.encname = (p.entries e').encname).mpr ⟨⟨hnode, hname⟩, fun _ _ => ⟨rfl, rfl⟩⟩

lemma samePit_updateExpirationTimer (p : PitCsTree) (e : ℕ) (t : Time) :
    SamePit p (p.updateExpirationTimer e t) := by
  have hentry := samePit_onEntry p e (f := fun entry =>
    { entry with expirationTime := t, queued := true }) rfl rfl
  unfold updateExpirationTimer
  split_ifs <;> exact { hentry with }

/-! ### Steps that change the tree -/

lemma NodeOk.of_entries {nd : PitCsTreeNode} (h : NodeOk p node nd)
    (hentry : ∀ e ∈ nd.pitEntries, p'.entries e = p.entries e)
    (hfree : ∀ e ∈ nd.pitEntries, e < p.made → e ∉ p.pool → e < p'.made ∧ e ∉ p'.pool) :
    NodeOk p' node nd where
  name_length := h.name_length
  depth := h.depth
  nodup := h.nodup
  entry := fun e he => by
    obtain ⟨hnode, hname, hlt, hpool⟩ := h.entry e he
    rw [hentry e he]
    exact ⟨hnode, hname, hfree e he hlt hpool⟩

/-- The tree changes, and the entries listed at its nodes do not. -/
lemma grows_tree (h : PitWf p) {tree : Trie ℕ PitCsTreeNode}
    (hnodes : ∀ node ∈ tree.paths, NodeOk p node (tree.val node))
    (hold : ∀ node ∈ p.tree.paths, node ∈ tree.paths
      ∧ (tree.val node).pitEntries = (p.tree.val node).pitEntries) :
    Grows p { p with tree := tree } where
  wf := {
    nodes := fun node hnode =>
      (hnodes node hnode).of_entries (fun _ _ => rfl) fun _ _ hlt hpool => ⟨hlt, hpool⟩
    listed := fun e node hnode => by
      obtain ⟨hmem, hlisted⟩ := h.listed e node hnode
      exact ⟨(hold node hmem).1, (hold node hmem).2 ▸ hlisted⟩
    pool_nodup := h.pool_nodup
    pool_lt := h.pool_lt }
  backs := fun e name hb => by
    obtain ⟨⟨node, hnode, hmem⟩, hname⟩ := hb
    exact ⟨⟨node, (hold node hnode).1, (hold node hnode).2 ▸ hmem⟩, hname⟩

/-- A change of a node that concerns only its CS entry. -/
lemma grows_modify (h : PitWf p) (node : List ℕ) (csEntry : Option ℕ) :
    Grows p { p with tree := p.tree.modify node fun nd => { nd with csEntry := csEntry } } := by
  have hval : ∀ q, (p.tree.modify node fun nd => { nd with csEntry := csEntry }).val q
      = { p.tree.val q with
          csEntry := if q = node then csEntry else (p.tree.val q).csEntry } := by
    intro q
    simp only [Trie.modify]
    rcases eq_or_ne q node with rfl | hne
    · simp
    · simp [hne]
  refine grows_tree h (fun q hq => ?_) fun q hq => ⟨hq, by rw [hval]⟩
  rw [hval]
  exact { h.nodes q hq with }

lemma foldl_child_name {nd : PitCsTreeNode} {components : List Str} :
    (components.foldl child nd).name = nd.name ++ components := by
  induction components generalizing nd with
  | nil => simp
  | cons c components ih => rw [foldl_cons, ih]; simp [child]

/-- The node that the hashes of a name lead to. -/
def TableConfig.nodeOf (cfg : TableConfig) (name : Name) : List ℕ := (cfg.keys name).reverse

/-- The longest prefix there is, and that no node continues it. -/
lemma findLongestPrefixEntry_spec (h : PitWf p) (cfg : TableConfig) (name : Name) :
    findLongestPrefixEntry cfg p.tree name ∈ p.tree.paths
      ∧ (p.tree.val (findLongestPrefixEntry cfg p.tree name)).depth
        = (findLongestPrefixEntry cfg p.tree name).length
      ∧ cfg.nodeOf name = ((name.drop (findLongestPrefixEntry cfg p.tree name).length).map
          cfg.componentHash).reverse ++ findLongestPrefixEntry cfg p.tree name
      ∧ ∀ c ∈ (name.drop (findLongestPrefixEntry cfg p.tree name).length).head?,
        cfg.componentHash c :: findLongestPrefixEntry cfg p.tree name ∉ p.tree.paths := by
  obtain ⟨taken, rest, hkeys, hpath, hmem, hstop⟩ :=
    descend_spec p.tree.root_mem (cfg.keys name)
  set found := findLongestPrefixEntry cfg p.tree name with hfound
  have heq : found = taken.reverse := by
    rw [hfound, findLongestPrefixEntry, hpath, append_nil]
  have hrest : (name.drop found.length).map cfg.componentHash = rest := by
    rw [map_drop, heq, length_reverse]
    change (cfg.keys name).drop taken.length = rest
    rw [hkeys, drop_left]
  refine ⟨hmem, (h.nodes found hmem).depth, ?_, fun c hc => hstop _ ?_⟩
  · rw [hrest, heq, TableConfig.nodeOf, hkeys, reverse_append]
  · rw [← hrest, head?_map, Option.mem_def.mp hc]
    rfl

/-- What holds at every node, and at a new node if it does at its parent, holds at every node
of the filled tree. -/
lemma fillTreeToPrefix_induction (h : PitWf p) {I : List ℕ → PitCsTreeNode → Prop}
    (hnew : ∀ q nd c, I q nd → I (cfg.componentHash c :: q) (nd.child c))
    (hI : ∀ q ∈ p.tree.paths, I q (p.tree.val q)) :
    ∀ q ∈ (fillTreeToPrefix cfg p.tree name).1.paths,
      I q ((fillTreeToPrefix cfg p.tree name).1.val q) := by
  obtain ⟨hmem, hdepth, -, hfree⟩ := findLongestPrefixEntry_spec h cfg name
  rw [fillTreeToPrefix, hdepth]
  exact grow_induction hnew hI hmem hfree

/-- `fillTreeToPrefix` makes the node of the name, and the nodes that are there stay as they
are. -/
lemma fillTreeToPrefix_spec (h : PitWf p) (cfg : TableConfig) (name : Name) :
    (fillTreeToPrefix cfg p.tree name).2 = cfg.nodeOf name
      ∧ cfg.nodeOf name ∈ (fillTreeToPrefix cfg p.tree name).1.paths
      ∧ ((fillTreeToPrefix cfg p.tree name).1.val (cfg.nodeOf name)).name
        = (p.tree.val (findLongestPrefixEntry cfg p.tree name)).name
          ++ name.drop (findLongestPrefixEntry cfg p.tree name).length
      ∧ ∀ q ∈ p.tree.paths, q ∈ (fillTreeToPrefix cfg p.tree name).1.paths
        ∧ (fillTreeToPrefix cfg p.tree name).1.val q = p.tree.val q := by
  obtain ⟨hmem, hdepth, hnode, hfree⟩ := findLongestPrefixEntry_spec h cfg name
  have hsnd : (fillTreeToPrefix cfg p.tree name).2 = cfg.nodeOf name := by
    rw [fillTreeToPrefix, grow_snd, hdepth, hnode]
  obtain ⟨hend, hvalue, hkeep⟩ := grow_spec hmem hfree
  rw [← hsnd, ← foldl_child_name, fillTreeToPrefix, hdepth]
  exact ⟨rfl, hend, congrArg _ hvalue, hkeep⟩

lemma grows_fillTreeToPrefix (h : PitWf p) (cfg : TableConfig) (name : Name) :
    Grows p { p with tree := (fillTreeToPrefix cfg p.tree name).1 } := by
  refine grows_tree h ?_ fun node hnode => ?_
  · refine fillTreeToPrefix_induction h (fun q nd c hok => ?_) h.nodes
    exact ⟨by simp [child, hok.name_length], by simp [child, hok.depth],
      nodup_nil, fun e he => absurd he not_mem_nil⟩
  · obtain ⟨hin, hsame⟩ := (fillTreeToPrefix_spec h cfg name).2.2.2 node hnode
    exact ⟨hin, by rw [hsame]⟩

/-! ### The entry of an Interest -/

/-- What the pool hands out is no entry of the PIT, and is not in the pool any more. -/
structure HandedOut (p : PitCsTree) (got : PitCsTree × ℕ) : Prop where
  tree : got.1.tree = p.tree
  entries : ∀ e, e ≠ got.2 → got.1.entries e = p.entries e
  notEntry : ¬p.HasEntry got.2
  made : p.made ≤ got.1.made
  lt_made : got.2 < got.1.made
  pool : got.1.pool ⊆ p.pool
  pool_nodup : got.1.pool.Nodup
  notMem_pool : got.2 ∉ got.1.pool

lemma handedOut_getEntry (h : PitWf p) (pick : ℕ) : HandedOut p (p.getEntry pick) := by
  unfold getEntry
  split_ifs with hpick
  · exact {
      tree := rfl
      entries := fun e he => update_of_ne he _ _
      notEntry := fun he => (h.notMem_pool he).2 hpick
      made := le_rfl
      lt_made := h.pool_lt pick hpick
      pool := erase_subset
      pool_nodup := h.pool_nodup.erase pick
      notMem_pool := h.pool_nodup.not_mem_erase }
  · exact {
      tree := rfl
      entries := fun e he => update_of_ne he _ _
      notEntry := fun he => lt_irrefl _ (h.notMem_pool he).1
      made := Nat.le_succ _
      lt_made := Nat.lt_succ_self _
      pool := Subset.refl _
      pool_nodup := h.pool_nodup
      notMem_pool := fun he => lt_irrefl _ (h.pool_lt _ he) }

/-- An entry `e` is now listed at `node`, under the name of the node; all else is as before. -/
structure ListedAt (p : PitCsTree) (node : List ℕ) (e : ℕ) (p' : PitCsTree) : Prop where
  paths : p'.tree.paths = p.tree.paths
  own : p'.tree.val node
    = { p.tree.val node with pitEntries := (p.tree.val node).pitEntries ++ [e] }
  others : ∀ q, q ≠ node → p'.tree.val q = p.tree.val q
  node_eq : (p'.entries e).node = some node
  encname_eq : (p'.entries e).encname = (p.tree.val node).name
  entries : ∀ e', e' ≠ e → p'.entries e' = p.entries e'

lemma ListedAt.mem {e' : ℕ} {q : List ℕ} (hl : ListedAt p node e p')
    (hmem : e' ∈ (p.tree.val q).pitEntries) : e' ∈ (p'.tree.val q).pitEntries := by
  rcases eq_or_ne q node with rfl | hne
  · rw [hl.own]
    exact mem_append_left _ hmem
  · rwa [hl.others q hne]

lemma ListedAt.mem_self (hl : ListedAt p node e p') : e ∈ (p'.tree.val node).pitEntries := by
  rw [hl.own]
  exact mem_append_right _ mem_cons_self

lemma listedAt_newEntry (h : PitWf p) (node : List ℕ) (interest : FwInterest)
    (hint : Option Name) (pick : ℕ) :
    ListedAt p node (p.getEntry pick).2 (p.newEntry interest hint node pick).1 := by
  have hgot := handedOut_getEntry h pick
  refine ⟨?_, ?_, fun q hq => ?_, ?_, ?_, fun e he => ?_⟩
  · rw [← hgot.tree]
    rfl
  · simp [PitCsTree.newEntry, PitCsTree.onEntry, Trie.modify, hgot.tree]
  · simp [PitCsTree.newEntry, PitCsTree.onEntry, Trie.modify, hgot.tree, hq]
  · simp [PitCsTree.newEntry, PitCsTree.onEntry]
  · simp [PitCsTree.newEntry, PitCsTree.onEntry]
  · simp [PitCsTree.newEntry, PitCsTree.onEntry, he, hgot.entries e he]

/-- A new entry is one of the PIT, under the name of its node. -/
lemma newEntry_spec (h : PitWf p) (hnode : node ∈ p.tree.paths) {interest : FwInterest}
    {hint : Option Name} {pick : ℕ} :
    Grows p (p.newEntry interest hint node pick).1
      ∧ (p.newEntry interest hint node pick).1.Backs (p.newEntry interest hint node pick).2
        (p.tree.val node).name := by
  have hgot := handedOut_getEntry h pick
  have hl := listedAt_newEntry h node interest hint pick
  have hpool : (p.newEntry interest hint node pick).1.pool = (p.getEntry pick).1.pool := rfl
  have hmade : (p.newEntry interest hint node pick).1.made = (p.getEntry pick).1.made := rfl
  have he : (p.newEntry interest hint node pick).2 = (p.getEntry pick).2 := rfl
  rw [he]
  set e := (p.getEntry pick).2
  set p' := (p.newEntry interest hint node pick).1
  -- an entry that was listed is not the one handed out
  have hother : ∀ q ∈ p.tree.paths, ∀ e' ∈ (p.tree.val q).pitEntries, e' ≠ e := by
    rintro q hq e' hmem rfl
    exact hgot.notEntry ⟨q, hq, hmem⟩
  have hok : ∀ q ∈ p.tree.paths, NodeOk p' q (p.tree.val q) := fun q hq =>
    (h.nodes q hq).of_entries (fun e' hmem => hl.entries e' (hother q hq e' hmem))
      fun e' _ hlt hout => ⟨hmade ▸ hlt.trans_le hgot.made, fun hin => hout (hgot.pool hin)⟩
  refine ⟨⟨⟨fun q hq => ?_, fun e' q hq => ?_, hpool ▸ hgot.pool_nodup, fun e' hin => ?_⟩,
    fun e' name hb => ?_⟩, ⟨node, hl.paths ▸ hnode, hl.mem_self⟩, hl.encname_eq⟩
  · rw [hl.paths] at hq
    rcases eq_or_ne q node with rfl | hne
    · rw [hl.own]
      refine { hok q hq with
        nodup := nodup_append.mpr ⟨(hok q hq).nodup, nodup_singleton _, ?_⟩
        entry := fun e' hmem => ?_ }
      · intro e' hmem e'' hmem' heq
        exact hother q hq e' hmem (heq.trans (mem_singleton.mp hmem'))
      · rcases mem_append.mp hmem with hmem | hmem
        · exact (hok q hq).entry e' hmem
        · obtain rfl := mem_singleton.mp hmem
          exact ⟨hl.node_eq, hl.encname_eq, hmade ▸ hgot.lt_made, hpool ▸ hgot.notMem_pool⟩
    · rw [hl.others q hne]
      exact hok q hq
  · rcases eq_or_ne e' e with rfl | hne
    · obtain rfl : node = q := Option.some.inj (hl.node_eq.symm.trans hq)
      exact ⟨hl.paths ▸ hnode, hl.mem_self⟩
    · rw [hl.entries e' hne] at hq
      obtain ⟨hmem, hin⟩ := h.listed e' q hq
      exact ⟨hl.paths ▸ hmem, hl.mem hin⟩
  · exact hmade ▸ (h.pool_lt e' (hgot.pool hin)).trans_le hgot.made
  · obtain ⟨⟨q, hq, hmem⟩, hname⟩ := hb
    exact ⟨⟨q, hl.paths ▸ hq, hl.mem hmem⟩,
      by rw [hl.entries e' (hother q hq e' hmem)]; exact hname⟩

/-- The node that the hashes of a name lead to has a prefix of that name: no other name has the
same hashes as far. -/
def PitCsTree.Unmistaken (cfg : TableConfig) (p : PitCsTree) (name : Name) : Prop :=
  (p.tree.val (findLongestPrefixEntry cfg p.tree name)).name <+: name

section

variable (h : PitWf p)
include h

lemma entryFor_spec {interest : FwInterest} {hint : Option Name} {pick : ℕ} :
    Grows p (p.entryFor cfg interest hint pick).1
      ∧ (p.Unmistaken cfg interest.name →
        (p.entryFor cfg interest hint pick).1.Backs (p.entryFor cfg interest hint pick).2
          interest.name) := by
  have hfill := grows_fillTreeToPrefix h cfg interest.name
  obtain ⟨hfound, -⟩ := findLongestPrefixEntry_spec h cfg interest.name
  obtain ⟨hsnd, hmem, hname, -⟩ := fillTreeToPrefix_spec h cfg interest.name
  rw [← (h.nodes _ hfound).name_length] at hname
  have hunmistaken : p.Unmistaken cfg interest.name → _ = interest.name := fun hu =>
    hname.trans (prefix_iff_eq_append.mp hu)
  unfold entryFor
  dsimp only
  rw [hsnd]
  split
  · rename_i e hfind
    have hlisted := mem_of_find?_eq_some hfind
    refine ⟨hfill, fun hu => ⟨⟨_, hmem, hlisted⟩, ?_⟩⟩
    exact ((hfill.wf.nodes _ hmem).entry e hlisted).2.1.trans (hunmistaken hu)
  · obtain ⟨hgrows, hbacks⟩ := newEntry_spec hfill.wf hmem
    exact ⟨hfill.trans hgrows, fun hu => ⟨hbacks.1, hbacks.2.trans (hunmistaken hu)⟩⟩

/-- **`InsertInterest`** keeps every entry, and the one it returns has the name of the
Interest. -/
lemma insertInterest_spec (cfg : TableConfig) (interest : FwInterest) (nonce : ℕ)
    (hint : Option Name) (inFace : Face) (pick : ℕ) :
    Grows p (p.insertInterest cfg interest nonce hint inFace pick).1
      ∧ (p.Unmistaken cfg interest.name →
        (p.insertInterest cfg interest nonce hint inFace pick).1.Backs
          (p.insertInterest cfg interest nonce hint inFace pick).2.1 interest.name) := by
  obtain ⟨hgrows, hbacks⟩ := entryFor_spec h
  unfold insertInterest
  set found := p.entryFor cfg interest hint pick
  have hreset : Grows found.1
      (found.1.onEntry found.2 fun entry => { entry with expirationTime := 0 }) :=
    SamePit.grows hgrows.wf (samePit_onEntry _ _ rfl rfl)
  dsimp only
  split_ifs
  · exact ⟨hgrows, hbacks⟩
  · exact ⟨hgrows.trans hreset, fun hu => hreset.backs _ _ (hbacks hu)⟩

/-! ### The content store -/

lemma grows_findMatchingDataFromCS (cfg : TableConfig) (interest : FwInterest)
    (now : Time) (wish : List ℕ) :
    Grows p (p.findMatchingDataFromCS cfg interest now wish).1 := by
  unfold findMatchingDataFromCS
  split
  · exact .refl h
  · split_ifs
    · exact .refl h
    · split
      · exact .refl h
      · exact grows_of_eq h rfl rfl rfl rfl

lemma grows_eraseCsData (index : ℕ) : Grows p (p.eraseCsData index) := by
  unfold eraseCsData
  split
  · exact .refl h
  · rename_i entry _
    have hgrows := grows_modify h entry.node none
    exact hgrows.trans (grows_of_eq hgrows.wf rfl rfl rfl rfl)

lemma grows_evictEntries {capacity fuel : ℕ} : Grows p (p.evictEntries capacity fuel) := by
  induction fuel generalizing p with
  | zero => exact .refl h
  | succ fuel ih =>
    unfold evictEntries
    split_ifs
    · exact .refl h
    · have herase := grows_eraseCsData h (p.csQueue.headD 0)
      have hqueue : Grows (p.eraseCsData (p.csQueue.headD 0))
          { p.eraseCsData (p.csQueue.headD 0) with csQueue := p.csQueue.tail } :=
        grows_of_eq herase.wf rfl rfl rfl rfl
      exact herase.trans (hqueue.andThen ih)

/-- `InsertData` keeps every entry. -/
lemma grows_insertData (cfg : TableConfig) (data : FwData) (now : Time) :
    Grows p (p.insertData cfg data now) := by
  have hfill := grows_fillTreeToPrefix h cfg data.name
  have hmod := hfill.trans (grows_modify hfill.wf (fillTreeToPrefix cfg p.tree data.name).2
    (some (cfg.nameHash data.name)))
  simp only [insertData]
  split
  · exact grows_of_eq h rfl rfl rfl rfl
  · refine hmod.trans (Grows.andThen ?_ fun hwf => grows_evictEntries hwf)
    exact grows_of_eq hmod.wf rfl rfl rfl rfl

/-! ### Removal -/

omit h in
lemma samePit_popExpired {now : Time} {popped : ℕ × PitCsTree}
    (hpop : p.popExpired now = some popped) :
    SamePit p popped.2 ∧ (∃ prio ≤ unixNano now, (popped.1, prio) ∈ p.pitExpiryQueue)
      ∧ ∀ item ∈ popped.2.pitExpiryQueue, item ∈ p.pitExpiryQueue := by
  obtain ⟨⟨e, rest⟩, hpopped, rfl⟩ := Option.map_eq_some_iff.mp hpop
  obtain ⟨prio, hdue, hmem, rfl⟩ := PriorityQueue.popIf_spec hpopped
  have hentry := samePit_onEntry { p with pitExpiryQueue := p.pitExpiryQueue.erase (e, prio) } e
    (f := fun entry => { entry with queued := false }) rfl rfl
  refine ⟨{ hentry with }, ⟨prio, of_decide_eq_true hdue, hmem⟩, ?_⟩
  exact fun item hitem => mem_of_mem_erase hitem

section

variable (he : (p.entries e).node = some node)
include he

/-- The entry is listed nowhere any more, and every other is as before. -/
lemma unlisted_spec {q : List ℕ}
    (hq : q ∈ p.tree.paths) :
    ((p.unlisted e node).val q).name = (p.tree.val q).name
      ∧ ((p.unlisted e node).val q).depth = (p.tree.val q).depth
      ∧ ((p.unlisted e node).val q).pitEntries.Nodup
      ∧ ∀ e', e' ∈ ((p.unlisted e node).val q).pitEntries
        ↔ e' ∈ (p.tree.val q).pitEntries ∧ e' ≠ e := by
  simp only [PitCsTree.unlisted, Trie.modify]
  rcases eq_or_ne q node with rfl | hne
  · have hperm := perm_swapRemove (h.listed e q he).2
    have hnodup := (h.nodes q hq).nodup
    rw [update_self]
    refine ⟨rfl, rfl, hperm.nodup_iff.mpr (hnodup.erase e), fun e' => ?_⟩
    rw [hperm.mem_iff, hnodup.mem_erase_iff, and_comm]
  · rw [update_of_ne hne]
    refine ⟨rfl, rfl, (h.nodes q hq).nodup, fun e' => ⟨fun hmem => ⟨hmem, ?_⟩, And.left⟩⟩
    rintro rfl
    have hnode := ((h.nodes q hq).entry e' hmem).1
    exact hne (Option.some.inj (hnode.symm.trans he))

/-- A node that still lists an entry is not pruned. -/
lemma mem_dropEntry {q : List ℕ} {e' : ℕ}
    (hq : q ∈ p.tree.paths) (hmem : e' ∈ (p.tree.val q).pitEntries) (hne : e' ≠ e) :
    q ∈ (p.dropEntry e node).tree.paths ∧ e' ∈ ((p.dropEntry e node).tree.val q).pitEntries := by
  have hmem' : e' ∈ ((p.unlisted e node).val q).pitEntries :=
    ((unlisted_spec h he hq).2.2.2 e').mpr ⟨hmem, hne⟩
  have hfull : PitCsTreeNode.isEmpty ((p.unlisted e node).val q) = false := by
    simp [PitCsTreeNode.isEmpty, List.ne_nil_of_mem hmem']
  refine ⟨Trie.mem_paths_prune hq hfull, ?_⟩
  simpa [PitCsTree.dropEntry, PitCsTree.onEntry] using hmem'

lemma pitWf_dropEntry : PitWf (p.dropEntry e node) := by
  obtain ⟨hnode, hlisted⟩ := h.listed e node he
  have hfree := h.notMem_pool ⟨node, hnode, hlisted⟩
  have hval : (p.dropEntry e node).tree.val = (p.unlisted e node).val := val_prune
  have hsub : (p.dropEntry e node).tree.paths ⊆ p.tree.paths := prune_subset
  have hentries : ∀ e', e' ≠ e → (p.dropEntry e node).entries e' = p.entries e' :=
    fun e' hne => update_of_ne hne _ _
  refine ⟨fun q hq => ?_, fun e' q hq => ?_, ?_, fun e' hin => ?_⟩
  · obtain ⟨hname, hdepth, hnodup, hmem⟩ := unlisted_spec h he (hsub hq)
    have hok := h.nodes q (hsub hq)
    rw [hval]
    refine ⟨hname ▸ hok.name_length, hdepth ▸ hok.depth, hnodup, fun e' he' => ?_⟩
    obtain ⟨hin, hne⟩ := (hmem e').mp he'
    obtain ⟨hown, hencname, hlt, hpool⟩ := hok.entry e' hin
    rw [hentries e' hne, hname]
    exact ⟨hown, hencname, hlt, fun hpooled => (mem_cons.mp hpooled).elim hne hpool⟩
  · have hne : e' ≠ e := by
      rintro rfl
      simp [dropEntry, onEntry] at hq
    rw [hentries e' hne] at hq
    exact mem_dropEntry h he (h.listed e' q hq).1 (h.listed e' q hq).2 hne
  · exact nodup_cons.mpr ⟨hfree.2, h.pool_nodup⟩
  · rcases mem_cons.mp hin with rfl | hin
    exacts [hfree.1, h.pool_lt e' hin]

end

/-- **`RemoveInterest`** takes out one entry and keeps every other. -/
lemma removeInterest_spec :
    PitWf (p.removeInterest e)
      ∧ (∀ e' name, e' ≠ e → p.Backs e' name → (p.removeInterest e).Backs e' name)
      ∧ (p.removeInterest e).pitExpiryQueue = p.pitExpiryQueue := by
  cases he : (p.entries e).node with
  | none =>
    have hsame : p.removeInterest e = p := by simp [removeInterest, he]
    rw [hsame]
    exact ⟨h, fun _ _ _ hb => hb, rfl⟩
  | some node =>
    have hdrop : p.removeInterest e = p.dropEntry e node := by
      simp [removeInterest, he, (h.listed e node he).2]
    rw [hdrop]
    refine ⟨pitWf_dropEntry h he, ?_, rfl⟩
    rintro e' name hne ⟨⟨q, hq, hmem⟩, hname⟩
    refine ⟨⟨q, mem_dropEntry h he hq hmem hne⟩, ?_⟩
    have hentry : (p.dropEntry e node).entries e' = p.entries e' := update_of_ne hne _ _
    rw [hentry]
    exact hname

end

end Mars
