import Mars.Table.ContentStore

/-!
Which PIT entries a Data packet is matched with.

There are two ways to an entry: the tree, from the longest prefix of the name upwards, and the
table of tokens, which asks for no name.

* `Matches`: the name of an entry is a prefix of a name, and equal to it unless the entry says
  otherwise;
* `Edged`: the names of the tree grow along its edges; `TokenWf`: the table of tokens holds only
  entries of the PIT; `Unmistaken`: no other name has the same hashes;
* `matches_findInterestPrefixMatchByData`: then what is found matches, if the token does not lead
  to an entry that does not (`TokenHonest`).
-/

namespace Mars

open Function PitCsTree List Trie

variable {cfg : TableConfig} {p p' : PitCsTree} {e : ℕ} {node : List ℕ} {name : Name}
  {tree : Trie ℕ PitCsTreeNode}

/-- The entry asks for this name: its own name is a prefix of it, and equal to it unless the entry
allows `CanBePrefix`. -/
structure NameTreePitEntry.Matches (entry : NameTreePitEntry) (name : Name) : Prop where
  isPrefix : entry.encname <+: name
  exact : entry.canBePrefix = false → entry.encname = name

instance (entry : NameTreePitEntry) (name : Name) : Decidable (entry.Matches name) :=
  decidable_of_iff (entry.encname <+: name ∧ (entry.canBePrefix = false → entry.encname = name))
    ⟨fun h => ⟨h.1, h.2⟩, fun h => ⟨h.1, h.2⟩⟩

/-! ### The names of the tree -/

/-- The name of a node continues that of its parent. -/
def Edged (tree : Trie ℕ PitCsTreeNode) : Prop :=
  ∀ k q, k :: q ∈ tree.paths → (tree.val q).name <+: (tree.val (k :: q)).name

lemma edged_new : Edged new.tree := fun _ _ h =>
  absurd (Finset.mem_singleton.mp h) (cons_ne_nil _ _)

/-- The name of a node continues those of all nodes above. -/
lemma Edged.isPrefix (h : Edged tree) {q : List ℕ} (hs : q <:+ node) (hnode : node ∈ tree.paths) :
    (tree.val q).name <+: (tree.val node).name := by
  obtain ⟨ks, rfl⟩ := hs
  induction ks with
  | nil => exact prefix_refl _
  | cons k ks ih => exact (ih (tree.parent_mem k _ hnode)).trans (h k _ hnode)

lemma Edged.congr {tree' : Trie ℕ PitCsTreeNode} (h : Edged tree) (hsub : tree'.paths ⊆ tree.paths)
    (hname : ∀ q, (tree'.val q).name = (tree.val q).name) :
    Edged tree' := fun k q hk => by
  rw [hname, hname]
  exact h k q (hsub hk)

lemma Edged.fill (hwf : PitWf p) (h : Edged p.tree) (cfg : TableConfig) (name : Name) :
    Edged (p.fill cfg name).tree := by
  obtain ⟨hmem, hdepth, -, hfree⟩ := findLongestPrefixEntry_spec hwf cfg name
  rw [PitCsTree.fill, fillTreeToPrefix, hdepth]
  exact grow_edges (R := fun nd nd' : PitCsTreeNode => nd.name <+: nd'.name)
    (fun nd c => prefix_append nd.name [c]) h hmem hfree

/-- Two trees differ in their CS entries only. -/
structure SameNodes (tree tree' : Trie ℕ PitCsTreeNode) : Prop where
  paths : tree'.paths = tree.paths
  val : ∀ q, tree'.val q = { tree.val q with csEntry := (tree'.val q).csEntry }

lemma SameNodes.refl (tree : Trie ℕ PitCsTreeNode) : SameNodes tree tree := ⟨rfl, fun _ => rfl⟩

lemma SameNodes.trans {tree' tree'' : Trie ℕ PitCsTreeNode} (h : SameNodes tree tree')
    (h' : SameNodes tree' tree'') : SameNodes tree tree'' :=
  ⟨h'.paths.trans h.paths, fun q => by rw [h'.val, h.val]⟩

lemma sameNodes_modify {csEntry : Option ℕ} :
    SameNodes tree (tree.modify node fun nd => { nd with csEntry := csEntry }) where
  paths := rfl
  val := fun q => by
    rcases eq_or_ne q node with rfl | hne
    · rw [modify_val_self]
    · rw [modify_val_of_ne hne]

lemma sameNodes_eraseCsData (p : PitCsTree) (index : ℕ) :
    SameNodes p.tree (p.eraseCsData index).tree := by
  unfold eraseCsData
  split
  · exact .refl _
  · exact sameNodes_modify

lemma sameNodes_evictEntries (capacity fuel : ℕ) (p : PitCsTree) :
    SameNodes p.tree (p.evictEntries capacity fuel).tree := by
  induction fuel generalizing p with
  | zero => exact .refl _
  | succ fuel ih =>
    unfold evictEntries
    split_ifs
    · exact .refl _
    · have herased : SameNodes p.tree
          { p.eraseCsData (p.csQueue.headD 0) with csQueue := p.csQueue.tail }.tree :=
        sameNodes_eraseCsData p _
      exact herased.trans (ih _)

/-- `InsertData` makes the nodes of the name, or none. -/
lemma sameNodes_insertData {data : FwData} {now : Time} :
    SameNodes p.tree (p.insertData cfg data now).tree
      ∨ SameNodes (p.fill cfg data.name).tree (p.insertData cfg data now).tree := by
  unfold insertData
  dsimp only
  split
  · exact .inl (.refl _)
  · refine .inr (SameNodes.trans ?_ (sameNodes_evictEntries cfg.csCapacity _ _))
    exact sameNodes_modify

lemma edged_insertData (hwf : PitWf p) (h : Edged p.tree) {data : FwData} {now : Time} :
    Edged (p.insertData cfg data now).tree := by
  rcases sameNodes_insertData with hs | hs
  · exact h.congr hs.paths.subset fun q => by rw [hs.val]
  · exact (h.fill hwf cfg data.name).congr hs.paths.subset fun q => by rw [hs.val]

lemma edged_removeInterest (hwf : PitWf p) (h : Edged p.tree) :
    Edged (p.removeInterest e).tree := by
  rcases removeInterest_cases hwf with heq | ⟨node, -, -, -, heq⟩
  · rwa [heq]
  · have hval : (p.dropEntry e node).tree.val = (p.unlisted e node).val := val_prune
    rw [heq]
    refine h.congr prune_subset fun q => ?_
    rw [hval]
    exact modify_val_congr PitCsTreeNode.name (fun _ => by rfl) node q

/-- `InsertInterest` makes the nodes of the name. -/
lemma Edged.inserts {interest : FwInterest} {hint : Option Name} (hwf : PitWf p)
    (h : Edged p.tree) (hi : Inserts cfg p interest hint e p') : Edged p'.tree := by
  have hfill := h.fill hwf cfg interest.name
  cases hi with
  | joined => exact hfill
  | made _ hmade =>
    refine hfill.congr hmade.paths.subset fun q => ?_
    rw [hmade.tree]
    exact modify_val_congr PitCsTreeNode.name (fun _ => by rfl) _ q

instance (p : PitCsTree) : Decidable (p.Unmistaken cfg name) :=
  inferInstanceAs (Decidable (_ <+: name))

lemma unmistaken_congr (hs : SameNodes p.tree p'.tree) :
    p'.Unmistaken cfg name ↔ p.Unmistaken cfg name := by
  rw [Unmistaken, Unmistaken, findLongestPrefixEntry, findLongestPrefixEntry,
    descend_congr hs.paths, hs.val]

/-- The node of a name has that name once it is made. -/
lemma unmistaken_fill (hwf : PitWf p) (hu : p.Unmistaken cfg name) :
    (p.fill cfg name).Unmistaken cfg name := by
  obtain ⟨-, hmem, hval, -⟩ := fillTreeToPrefix_spec hwf cfg name
  have hfound : findLongestPrefixEntry cfg (p.fill cfg name).tree name = cfg.nodeOf name := by
    rw [findLongestPrefixEntry, descend_of_mem (by rw [append_nil]; exact hmem), append_nil]
    rfl
  have hlen := (hwf.nodes _ (findLongestPrefixEntry_spec hwf cfg name).1).name_length
  rw [Unmistaken, hfound]
  change ((fillTreeToPrefix cfg p.tree name).1.val (cfg.nodeOf name)).name <+: name
  rw [hval, ← hlen, prefix_iff_eq_append.mp hu]

lemma unmistaken_insertData (hwf : PitWf p) {data : FwData} (hu : p.Unmistaken cfg data.name)
    {now : Time} : (p.insertData cfg data now).Unmistaken cfg data.name := by
  rcases sameNodes_insertData with hs | hs
  · exact (unmistaken_congr hs).mpr hu
  · exact (unmistaken_congr hs).mpr (unmistaken_fill hwf hu)

/-! ### Tokens -/

/-- The table of tokens holds entries of the PIT, each in the slot of its token. -/
structure TokenWf (p : PitCsTree) : Prop where
  used : ∀ i e, p.pitTokens i = some e → (p.entries e).node ≠ none
  slot : ∀ i e, p.pitTokens i = some e → pitTokenIdx (p.entries e).token = i

lemma tokenWf_new : TokenWf .new := ⟨nofun, nofun⟩

lemma TokenWf.congr (h : TokenWf p) (htokens : p'.pitTokens = p.pitTokens)
    (hentries : ∀ e, (p'.entries e).node = (p.entries e).node
      ∧ (p'.entries e).token = (p.entries e).token) : TokenWf p' where
  used := fun i e he => by
    rw [(hentries e).1]
    exact h.used i e (htokens ▸ he)
  slot := fun i e he => by
    rw [(hentries e).2]
    exact h.slot i e (htokens ▸ he)

/-- A new entry takes the slot of its token, and is in no other. -/
lemma TokenWf.inserts {interest : FwInterest} {hint : Option Name} (h : TokenWf p)
    (hi : Inserts cfg p interest hint e p') : TokenWf p' := by
  cases hi with
  | joined => exact { h with }
  | made _ hmade =>
    have hother : ∀ i e', p'.pitTokens i = some e' → e' ≠ e → p.pitTokens i = some e' := by
      intro i e' he' hne
      rw [hmade.tokens] at he'
      rcases eq_or_ne i (pitTokenIdx (p'.entries e).token) with rfl | hi
      · rw [update_self, Option.some_inj] at he'
        exact absurd he'.symm hne
      · rwa [update_of_ne hi] at he'
    refine ⟨fun i e' he' => ?_, fun i e' he' => ?_⟩
    · rcases eq_or_ne e' e with rfl | hne
      · rw [hmade.node_eq]
        exact Option.some_ne_none _
      · rw [hmade.entries e' hne]
        exact h.used i e' (hother i e' he' hne)
    · rcases eq_or_ne e' e with rfl | hne
      · by_contra hi
        rw [hmade.tokens, update_of_ne (Ne.symm hi)] at he'
        exact h.used i e' he' hmade.unused
      · rw [hmade.entries e' hne]
        exact h.slot i e' (hother i e' he' hne)

/-- An entry that is removed leaves the slot of its token. -/
lemma TokenWf.removeInterest (hwf : PitWf p) (h : TokenWf p) : TokenWf (p.removeInterest e) := by
  rcases removeInterest_cases hwf with heq | ⟨node, -, -, -, heq⟩
  · rwa [heq]
  · rw [heq]
    have hother : ∀ i e', (p.dropEntry e node).pitTokens i = some e' →
        e' ≠ e ∧ p.pitTokens i = some e' := by
      intro i e' he'
      simp only [dropEntry, onEntry] at he'
      split_ifs at he' with hslot
      · rcases eq_or_ne i (pitTokenIdx (p.entries e).token) with rfl | hi
        · rw [update_self] at he'
          cases he'
        · rw [update_of_ne hi] at he'
          refine ⟨?_, he'⟩
          rintro rfl
          exact hi (h.slot i e' he').symm
      · refine ⟨?_, he'⟩
        rintro rfl
        exact hslot ((h.slot i e' he').symm ▸ he')
    have hentry : ∀ e', e' ≠ e → (p.dropEntry e node).entries e' = p.entries e' :=
      fun e' hne => update_of_ne hne _ _
    refine ⟨fun i e' he' => ?_, fun i e' he' => ?_⟩
    all_goals
      obtain ⟨hne, hold⟩ := hother i e' he'
      rw [hentry e' hne]
    exacts [h.used i e' hold, h.slot i e' hold]

/-! ### Matching -/

/-- The token of a Data packet, if it is that of the entry in its slot, is that of an entry that
asks for the name. -/
def PitCsTree.TokenHonest (p : PitCsTree) (name : Name) (token : Option ℕ) : Prop :=
  ∀ tok ∈ token, ∀ e ∈ p.pitTokens (pitTokenIdx tok), (p.entries e).token = tok →
    (p.entries e).Matches name

instance (p : PitCsTree) (token : Option ℕ) : Decidable (p.TokenHonest name token) :=
  inferInstanceAs (Decidable (∀ tok ∈ token, ∀ e ∈ p.pitTokens (pitTokenIdx tok), _ → _))

/-- The entries that the tree leads to match, and are entries of the PIT. -/
lemma matches_findInterestPrefixMatchByName (hwf : PitWf p) (hedged : Edged p.tree)
    (hu : p.Unmistaken cfg name) :
    ∀ e ∈ p.findInterestPrefixMatchByName cfg name,
      p.HasEntry e ∧ (p.entries e).Matches name := by
  intro e he
  obtain ⟨node, hnode, he⟩ := mem_flatMap.mp he
  obtain ⟨hlisted, hdepth⟩ := mem_filter.mp he
  have hsuffix := (mem_tails _ _).mp hnode
  obtain ⟨hfound, -⟩ := findLongestPrefixEntry_spec hwf cfg name
  have hmem := p.tree.suffix_mem hsuffix hfound
  have hok := hwf.nodes node hmem
  obtain ⟨-, hencname, -⟩ := hok.entry e hlisted
  have hstart : (p.entries e).encname <+: name := by
    rw [hencname]
    exact (hedged.isPrefix hsuffix hfound).trans hu
  refine ⟨⟨node, hmem, hlisted⟩, hstart, fun hexact => ?_⟩
  rw [hexact, Bool.false_or, decide_eq_true_iff, hok.depth, ← hok.name_length, ← hencname] at hdepth
  exact hstart.eq_of_length hdepth

/-- **What is found by name or by token matches.** -/
lemma matches_findInterestPrefixMatchByData (hwf : PitWf p) (hedged : Edged p.tree)
    (htokens : TokenWf p) (hu : p.Unmistaken cfg name) {token : Option ℕ}
    (htoken : p.TokenHonest name token) :
    ∀ e ∈ p.findInterestPrefixMatchByData cfg name token,
      p.HasEntry e ∧ (p.entries e).Matches name := by
  have hnamed := matches_findInterestPrefixMatchByName hwf hedged hu
  unfold findInterestPrefixMatchByData
  dsimp only
  split
  · exact hnamed
  · rename_i token
    split
    · exact hnamed
    · rename_i e' hslot
      split_ifs with htest
      · intro e he
        obtain rfl := mem_singleton.mp he
        have hentry : p.HasEntry e :=
          hwf.hasEntry_iff.mpr (Option.ne_none_iff_exists'.mp (htokens.used _ e hslot))
        exact ⟨hentry, htoken token rfl e hslot htest.2⟩
      · exact hnamed

end Mars
