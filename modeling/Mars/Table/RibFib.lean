import Mars.Table.Rib

/-!
What `updateNexthopsEnc` makes of the routes of the RIB.

* `lists_minCosts`: the loop over the routes of a name finds the least cost of each face;
* `RibHolds`: the routes of every name, as the entries have them; `Tidy`: the FIB has the nexthops
  that the walk up from each name gives;
* `tidy_update`: to refresh the entries below a name whose routes have changed is enough, but the
  root is never cleared.
-/

namespace Mars

open Function Finset List RibTable Trie

/-! ### The least costs -/

variable {rs rs' : List Route} {r : Route} {nh : FibNextHopEntry}

lemma mem_minHops : nh ∈ minHops rs ↔
    (∃ r ∈ rs, r.faceID = nh.nexthop ∧ r.cost = nh.cost)
      ∧ ∀ r ∈ rs, r.faceID = nh.nexthop → nh.cost ≤ r.cost := by
  simp only [minHops, Finset.mem_filter, List.mem_toFinset, List.mem_map]
  refine and_congr_left fun _ => ⟨?_, ?_⟩
  · rintro ⟨r, hr, rfl⟩
    exact ⟨r, hr, rfl, rfl⟩
  · rintro ⟨r, hr, hface, hcost⟩
    exact ⟨r, hr, by rw [hface, hcost]⟩

lemma minHops_congr (h : ∀ r, r ∈ rs ↔ r ∈ rs') : minHops rs = minHops rs' := by
  ext nh
  simp only [mem_minHops, h]

/-- Every face with a route has a least cost. -/
lemma exists_minHop (h : r ∈ rs) : ∃ nh ∈ minHops rs, nh.nexthop = r.faceID := by
  obtain ⟨r', hr', hmin⟩ := exists_min_image (rs.toFinset.filter (·.faceID = r.faceID))
    Route.cost ⟨r, by simpa using h⟩
  simp only [Finset.mem_filter, List.mem_toFinset] at hr' hmin
  exact ⟨⟨r.faceID, r'.cost⟩, mem_minHops.mpr ⟨⟨r', hr'.1, hr'.2, rfl⟩,
    fun r'' hr'' hface => hmin r'' ⟨hr'', hface⟩⟩, rfl⟩

/-- One more route: it may be the cheapest of its face. -/
lemma minHops_concat : minHops (rs ++ [r]) =
    if ∃ r' ∈ rs, r'.faceID = r.faceID ∧ r'.cost ≤ r.cost then minHops rs
    else insert ⟨r.faceID, r.cost⟩ ((minHops rs).filter (·.nexthop ≠ r.faceID)) := by
  ext nh
  have hconcat : nh ∈ minHops (rs ++ [r]) ↔
      ((∃ r' ∈ rs, r'.faceID = nh.nexthop ∧ r'.cost = nh.cost)
        ∨ r.faceID = nh.nexthop ∧ r.cost = nh.cost)
        ∧ (∀ r' ∈ rs, r'.faceID = nh.nexthop → nh.cost ≤ r'.cost)
        ∧ (r.faceID = nh.nexthop → nh.cost ≤ r.cost) := by
    simp [mem_minHops, or_and_right, exists_or, or_imp, forall_and]
  rw [hconcat]
  split_ifs with hcheap
  · rw [mem_minHops]
    grind
  · rw [Finset.mem_insert, Finset.mem_filter, mem_minHops]
    cases nh
    grind

/-- **`minCostRoutes` has the least cost of each face.** -/
lemma lists_minCosts (rs : List Route) : Lists (minCosts rs) (minHops rs) := by
  induction rs using reverseRecOn with
  | nil => exact lists_nil
  | append_singleton rs r ih =>
    have hconcat : minCosts (rs ++ [r]) = addMinCost (minCosts rs) r := by
      rw [minCosts, foldl_append]
      rfl
    rw [hconcat, addMinCost, minHops_concat]
    split
    · rename_i hnone
      rw [if_neg]
      · exact ih.insertHop
      · rintro ⟨r', hr', hf, -⟩
        obtain ⟨nh, hnh, hface⟩ := exists_minHop hr'
        have hout := find?_eq_none.mp hnone nh ((ih.mem nh).mpr hnh)
        simp [hface, hf] at hout
    · rename_i nh hfound
      have hface : nh.nexthop = r.faceID := by simpa using find?_some hfound
      obtain ⟨⟨r₀, hr₀, hf₀, hc₀⟩, hleast⟩ :=
        mem_minHops.mp ((ih.mem nh).mp (mem_of_find?_eq_some hfound))
      split_ifs with hless hcheap hcheap
      · obtain ⟨r', hr', hf, hle⟩ := hcheap
        exact absurd (hleast r' hr' (hf.trans hface.symm)) (by omega)
      · exact ih.insertHop
      · exact ih
      · exact absurd ⟨r₀, hr₀, hf₀.trans hface, by omega⟩ hcheap

/-! ### The routes of the entries -/

variable {κ : Type*}

/-- The path to the entry of a name. -/
def pathOf (hash : κ → ℕ) (name : List κ) : List ℕ := (name.map hash).reverse

/-- The name that an entry has: that of the root is nil. -/
def entryName (name : List κ) : Option (List κ) := if name = [] then none else some name

lemma pathOf_injective {hash : κ → ℕ} (h : Injective hash) : Injective (pathOf hash) :=
  reverse_injective.comp (map_injective_iff.mpr h)

lemma pathOf_append {hash : κ → ℕ} {name rest : List κ} :
    pathOf hash (name ++ rest) = pathOf hash rest ++ pathOf hash name := by
  simp [pathOf]

/-- The entries above an entry are those of the prefixes of its name. -/
lemma tails_pathOf {hash : κ → ℕ} {name : List κ} :
    (pathOf hash name).tails = name.inits.reverse.map (pathOf hash) := by
  induction name using reverseRecOn with
  | nil => rfl
  | append_singleton name c ih =>
    rw [pathOf_append]
    simp [pathOf] at ih ⊢
    exact ih

lemma entryName_getD {name : List κ} : (entryName name).getD [] = name := by
  unfold entryName
  split_ifs with h
  · rw [h, Option.getD_none]
  · rw [Option.getD_some]

/-- The entry of a name has its name and these routes. -/
structure EntryOk (hash : κ → ℕ) (rib : Trie ℕ (RibEntry κ)) (table : List κ → List Route)
    (n : List κ) : Prop where
  name : (rib.val (pathOf hash n)).name = entryName n
  depth : (rib.val (pathOf hash n)).depth = n.length
  routes : (rib.val (pathOf hash n)).routes = table n

/-- An entry, read as a whole. -/
lemma entryOk_iff {hash : κ → ℕ} {rib : Trie ℕ (RibEntry κ)} {table : List κ → List Route}
    {n : List κ} : EntryOk hash rib table n ↔
      rib.val (pathOf hash n) = ⟨entryName n, n.length, table n⟩ := by
  refine ⟨fun h => ?_, fun h => ⟨?_, ?_, ?_⟩⟩
  · rw [← h.name, ← h.depth, ← h.routes]
  all_goals rw [h]

/-- The entries of the tree have these routes, and a name without an entry has none. -/
structure RibHolds (hash : κ → ℕ) (rib : Trie ℕ (RibEntry κ)) (routes : List κ → List Route) :
    Prop where
  covered : ∀ p ∈ rib.paths, ∃ name, pathOf hash name = p
  entry : ∀ name, pathOf hash name ∈ rib.paths → EntryOk hash rib routes name
  none : ∀ name, pathOf hash name ∉ rib.paths → routes name = []

variable {hash : κ → ℕ} {rib : Trie ℕ (RibEntry κ)} {routes routes' : List κ → List Route}
  {name : List κ}

lemma ribHolds_new (hhash : Injective hash) {defaultStrategy : List κ} :
    RibHolds hash (new defaultStrategy).rib fun _ => [] := by
  have hroot : ∀ p, p ∈ (new defaultStrategy).rib.paths ↔ p = [] := fun p =>
    Finset.mem_singleton
  refine ⟨fun p hp => ⟨[], ((hroot p).mp hp).symm⟩, fun name hname => ?_, fun _ _ => rfl⟩
  obtain rfl : name = [] := pathOf_injective hhash ((hroot _).mp hname)
  exact ⟨rfl, rfl, rfl⟩

/-- Where the lookup of a name ends: at a prefix of it, and no entry continues it. -/
lemma ribFind_spec (hash : κ → ℕ) (rib : Trie ℕ (RibEntry κ)) (name : List κ) :
    ∃ taken rest, name = taken ++ rest
      ∧ RibTable.findLongestPrefixEntry hash rib name = pathOf hash taken
      ∧ pathOf hash taken ∈ rib.paths
      ∧ (∀ c ∈ rest.head?, hash c :: pathOf hash taken ∉ rib.paths)
      ∧ (rest ≠ [] → pathOf hash name ∉ rib.paths) := by
  obtain ⟨ks, ls, hkeys, hpath, hmem, hstop⟩ :=
    descend_spec rib.root_mem (name.map hash)
  rw [append_nil] at hpath
  obtain ⟨taken, rest, rfl, rfl, rfl⟩ := map_eq_append_iff.mp hkeys
  have hfound : RibTable.findLongestPrefixEntry hash rib (taken ++ rest) = pathOf hash taken :=
    hpath
  rw [hpath] at hmem hstop
  have hfree : ∀ c ∈ rest.head?, hash c :: pathOf hash taken ∉ rib.paths := fun c hc =>
    hstop (hash c) (by rw [head?_map]; exact Option.mem_map_of_mem hash hc)
  refine ⟨taken, rest, rfl, hfound, hmem, hfree, fun hne hin => ?_⟩
  obtain ⟨c, rest, rfl⟩ := exists_cons_of_ne_nil hne
  refine hfree c rfl (rib.suffix_mem ⟨pathOf hash rest, ?_⟩ hin)
  simp [pathOf]

section

variable (h : RibHolds hash rib routes)
include h

/-- The exact match is the entry of the name, or the name has none. -/
lemma RibHolds.findExact {name : List κ} :
    RibTable.findExactMatchEntry hash rib name = some (pathOf hash name)
        ∧ pathOf hash name ∈ rib.paths
      ∨ RibTable.findExactMatchEntry hash rib name = Option.none ∧ routes name = [] := by
  obtain ⟨taken, rest, rfl, hfound, hmem, -, hout⟩ := ribFind_spec hash rib name
  rw [RibTable.findExactMatchEntry, hfound, (h.entry taken hmem).name, entryName_getD,
    length_append]
  rcases eq_or_ne rest [] with rfl | hne
  · exact .inl (by simp [hmem])
  · have hpos : 0 < rest.length := length_pos_of_ne_nil hne
    exact .inr ⟨if_neg (by omega), h.none _ (hout hne)⟩

/-- An entry that `fillTreeToPrefixEnc` makes has no routes. -/
lemma RibHolds.addChild (hhash : Injective hash) {p : List ℕ}
    {c : κ} (hp : p ∈ rib.paths) (hfree : hash c :: p ∉ rib.paths) :
    RibHolds hash (rib.addChild p (hash c) (child (rib.val p) c)) routes := by
  obtain ⟨n, rfl⟩ := h.covered p hp
  have hpath : pathOf hash (n ++ [c]) = hash c :: pathOf hash n := pathOf_append
  rw [← hpath] at hfree
  refine ⟨fun q hq => ?_, fun n' hn' => entryOk_iff.mpr ?_,
    fun n' hn' => h.none n' fun hin => hn' ?_⟩
  · rw [addChild_paths hp, mem_insert] at hq
    exact hq.elim (fun heq => ⟨n ++ [c], hpath.trans heq.symm⟩) (h.covered q)
  · rw [addChild_paths hp, ← hpath] at hn'
    rw [addChild_val hp, ← hpath]
    rcases eq_or_ne n' (n ++ [c]) with rfl | hne
    · rw [update_self, entryOk_iff.mp (h.entry n hp), h.none _ hfree]
      simp only [child, entryName_getD]
      simp [entryName]
    · have hne : pathOf hash n' ≠ pathOf hash (n ++ [c]) := (pathOf_injective hhash).ne hne
      rw [update_of_ne hne]
      exact entryOk_iff.mp (h.entry n' (mem_of_mem_insert_of_ne hn' hne))
  · rw [addChild_paths hp]
    exact mem_insert_of_mem hin

lemma RibHolds.fill (hhash : Injective hash) (name : List κ) :
    (RibTable.fillTreeToPrefix hash rib name).2 = pathOf hash name
      ∧ pathOf hash name ∈ (RibTable.fillTreeToPrefix hash rib name).1.paths
      ∧ RibHolds hash (RibTable.fillTreeToPrefix hash rib name).1 routes := by
  obtain ⟨taken, rest, rfl, hfound, hmem, hfree, -⟩ := ribFind_spec hash rib name
  have hdrop : (taken ++ rest).drop (rib.val (pathOf hash taken)).depth = rest := by
    rw [(h.entry taken hmem).depth, drop_left]
  have hsnd := grow_snd (t := rib) (p := pathOf hash taken) hash child rest
  have hpath : (List.map hash rest).reverse ++ pathOf hash taken = pathOf hash (taken ++ rest) :=
    pathOf_append.symm
  rw [hpath] at hsnd
  simp only [RibTable.fillTreeToPrefix, hfound, hdrop]
  refine ⟨hsnd, hsnd ▸ (grow_spec hmem hfree).1, ?_⟩
  exact grow_rule (I := fun rib _ _ => RibHolds hash rib routes)
    (fun _ _ _ _ hp hfree h => h.addChild hhash hp hfree) hmem hfree h

omit h in
/-- `pruneIfEmpty` removes the entry, if it is a leaf without routes. -/
lemma pruneIfEmpty_cases {rib : Trie ℕ (RibEntry κ)} {p : List ℕ} :
    pruneIfEmpty rib p = rib
      ∨ rib.children p = ∅ ∧ (rib.val p).routes = []
        ∧ (pruneIfEmpty rib p).paths = rib.paths.erase p
        ∧ (pruneIfEmpty rib p).val = rib.val := by
  cases p with
  | nil => exact .inl rfl
  | cons k parent =>
    by_cases hleaf : rib.children (k :: parent) = ∅ ∧ (rib.val (k :: parent)).routes = []
    · refine .inr ⟨hleaf.1, hleaf.2, ?_⟩
      rw [pruneIfEmpty, if_pos hleaf, remove, dif_pos hleaf.1]
      exact ⟨rfl, rfl⟩
    · exact .inl (by rw [pruneIfEmpty, if_neg hleaf])

lemma RibHolds.prune (hmem : pathOf hash name ∈ rib.paths) :
    RibHolds hash (pruneIfEmpty rib (pathOf hash name)) routes
      ∧ EntryOk hash (pruneIfEmpty rib (pathOf hash name)) routes name := by
  rcases pruneIfEmpty_cases with heq | ⟨-, hroutes, hpaths, hval⟩
  · rw [heq]
    exact ⟨h, h.entry name hmem⟩
  · have hentry : ∀ n, pathOf hash n ∈ rib.paths →
        EntryOk hash (pruneIfEmpty rib (pathOf hash name)) routes n := by
      intro n hn
      rw [entryOk_iff, hval]
      exact entryOk_iff.mp (h.entry n hn)
    refine ⟨⟨fun p hp => ?_, fun n hn => ?_, fun n hn => ?_⟩, hentry name hmem⟩
    · rw [hpaths] at hp
      exact h.covered p (mem_of_mem_erase hp)
    · rw [hpaths] at hn
      exact hentry n (mem_of_mem_erase hn)
    · rw [hpaths, mem_erase, not_and] at hn
      by_cases hpath : pathOf hash n = pathOf hash name
      · have hr := (h.entry n (hpath ▸ hmem)).routes
        rw [← hr, hpath, hroutes]
      · exact h.none n (hn hpath)

end

variable [DecidableEq κ]

/-- The routes of an entry change. -/
lemma RibHolds.modify (h : RibHolds hash rib routes) (hhash : Injective hash)
    (hmem : pathOf hash name ∈ rib.paths) (f : List Route → List Route) :
    RibHolds hash (rib.modify (pathOf hash name) fun e => { e with routes := f e.routes })
      (update routes name (f (routes name))) := by
  refine ⟨h.covered, fun n hn => entryOk_iff.mpr ?_, fun n hn => ?_⟩
  · have hentry := entryOk_iff.mp (h.entry n hn)
    rcases eq_or_ne n name with rfl | hne
    · rw [modify_val_self, hentry, update_self]
    · rw [modify_val_of_ne ((pathOf_injective hhash).ne hne), hentry, update_of_ne hne]
  · have hne : n ≠ name := by
      rintro rfl
      exact hn hmem
    rw [update_of_ne hne]
    exact h.none n hn

/-! ### Refreshing an entry of the FIB -/

variable {hops new : List FibNextHopEntry}

/-- Nexthops are inserted one after another into those that are there. -/
lemma mem_foldl_insertHop (hnew : (new.map (·.nexthop)).Nodup)
    (hhops : (hops.map (·.nexthop)).Nodup) :
    ((new.foldl (fun l nh => insertHop nh.nexthop nh.cost l) hops).map (·.nexthop)).Nodup
      ∧ ∀ nh, nh ∈ new.foldl (fun l nh => insertHop nh.nexthop nh.cost l) hops
        ↔ nh ∈ new ∨ nh ∈ hops ∧ nh.nexthop ∉ new.map (·.nexthop) := by
  induction new generalizing hops with
  | nil => exact ⟨hhops, fun nh => by simp⟩
  | cons hd new ih =>
    rw [List.map_cons, List.nodup_cons] at hnew
    have hlists : Lists hops hops.toFinset := ⟨hhops, fun nh => by simp⟩
    obtain ⟨hnodup, hmem⟩ := ih hnew.2 (hlists.insertHop).faces
    refine ⟨hnodup, fun nh => ?_⟩
    rw [List.foldl_cons, hmem, mem_insertHop hhops, List.mem_cons, List.map_cons, List.mem_cons,
      not_or]
    constructor
    · rintro (hin | ⟨rfl | ⟨hin, hne⟩, hout⟩)
      exacts [.inl (.inr hin), .inl (.inl rfl), .inr ⟨hin, hne, hout⟩]
    · rintro ((rfl | hin) | ⟨hin, hne, hout⟩)
      exacts [.inr ⟨.inl rfl, hnew.1⟩, .inl hin, .inr ⟨.inr ⟨hin, hne⟩, hout⟩]

variable {fib : FibStrategyTree κ}
  {nexthops : List κ → List FibNextHopEntry} {strategy : List κ → Option (List κ)}

lemma holds_foldl_insertNextHop (h : fib.Holds nexthops strategy) (name : List κ)
    (new : List FibNextHopEntry) :
    (new.foldl (fun fib nh => fib.insertNextHop name nh.nexthop nh.cost) fib).Holds
      (update nexthops name
        (new.foldl (fun l nh => insertHop nh.nexthop nh.cost l) (nexthops name))) strategy := by
  induction new generalizing fib nexthops with
  | nil => rwa [foldl_nil, foldl_nil, update_eq_self]
  | cons hd new ih =>
    have hstep := ih (h.insertNextHop name hd.nexthop hd.cost)
    rwa [update_self, update_idem] at hstep

lemma FibStrategyTree.Holds.nexthopsOf (h : fib.Holds nexthops strategy) {name : List κ} :
    fib.nexthopsOf name = nexthops name := by
  rw [FibStrategyTree.nexthopsOf]
  rcases h.findExact with ⟨hfind, hmem⟩ | ⟨hfind, hnone, -⟩
  · rw [hfind]
    exact (h.entry _ hmem).1.trans (by rw [reverse_reverse])
  · rw [hfind, hnone]

/-! ### The walk up from a name -/

/-- The routes that `updateNexthopsEnc` makes the nexthops of a name from. -/
def walked (routes : List κ → List Route) (name : List κ) : List Route :=
  routes name ++
    if hasCaptureRoute (routes name) then []
    else name.inits.reverse.flatMap fun q => inheritable (routes q)

/-- The nexthops of a name, as the walk gives them. -/
def walkedHops (routes : List κ → List Route) (name : List κ) : Finset FibNextHopEntry :=
  if routes name = [] then ∅ else minHops (walked routes name)

omit [DecidableEq κ] in
lemma inheritable_subset {rs : List Route} : inheritable rs ⊆ rs := by
  induction rs with
  | nil => exact Subset.refl _
  | cons r rs ih =>
    rw [inheritable]
    refine append_subset.mpr ⟨?_, ?_⟩
    · split_ifs
      · exact cons_subset.mpr ⟨mem_cons_self, nil_subset _⟩
      · exact nil_subset _
    · split_ifs
      · exact nil_subset _
      · exact fun r' hr' => mem_cons_of_mem r (ih hr')

omit [DecidableEq κ] in
lemma pathOf_suffix {q : List κ} (h : q <+: name) : pathOf hash q <:+ pathOf hash name := by
  obtain ⟨rest, rfl⟩ := h
  exact ⟨pathOf hash rest, pathOf_append.symm⟩

omit [DecidableEq κ] in
lemma RibHolds.allRoutes (h : RibHolds hash rib routes) (hmem : pathOf hash name ∈ rib.paths) :
    allRoutes rib (pathOf hash name) = walked routes name := by
  have habove : (pathOf hash name).tails.flatMap (fun e => inheritable (rib.val e).routes)
      = name.inits.reverse.flatMap fun q => inheritable (routes q) := by
    rw [tails_pathOf, flatMap_map]
    refine flatMap_congr fun q hq => ?_
    have hq : q <+: name := (mem_inits q name).mp (mem_reverse.mp hq)
    rw [(h.entry q (rib.suffix_mem (pathOf_suffix hq) hmem)).routes]
  rw [RibTable.allRoutes, walked, (h.entry name hmem).routes, habove]

omit [DecidableEq κ] in
lemma exists_route_of_root (h : nh ∈ walkedHops routes []) :
    ∃ r ∈ routes [], r.faceID = nh.nexthop := by
  rw [walkedHops] at h
  split_ifs at h
  · exact absurd h (notMem_empty nh)
  · obtain ⟨⟨r, hr, hface, -⟩, -⟩ := mem_minHops.mp h
    refine ⟨r, ?_, hface⟩
    rcases mem_append.mp hr with hr | hr
    · exact hr
    · split_ifs at hr
      · exact absurd hr not_mem_nil
      · exact inheritable_subset (by simpa using hr)

/-- The nexthops of the root have faces with routes there, or `old` ones, which all have one. -/
structure RootReady (old : Set Face) (routes : List κ → List Route) (hops : List FibNextHopEntry) :
    Prop where
  faces : (hops.map (·.nexthop)).Nodup
  routed : ∀ nh ∈ hops, (∃ r ∈ routes [], r.faceID = nh.nexthop) ∨ nh.nexthop ∈ old
  old : ∀ f ∈ old, ∃ nh ∈ hops, nh.nexthop = f

/-- The nexthops of a name are those that the walk gives, and at the root those of `old` faces. -/
structure Fresh (old : Set Face) (routes : List κ → List Route) (name : List κ)
    (hops : List FibNextHopEntry) : Prop where
  faces : (hops.map (·.nexthop)).Nodup
  walked : ∀ nh ∈ walkedHops routes name, nh ∈ hops
  mem : ∀ nh ∈ hops, nh ∈ walkedHops routes name ∨ name = [] ∧ nh.nexthop ∈ old
  old : name = [] → ∀ f ∈ old, ∃ nh ∈ hops, nh.nexthop = f

variable {old : Set Face}

omit [DecidableEq κ] in
lemma Fresh.congr (h : Fresh old routes name hops)
    (hsame : walkedHops routes name = walkedHops routes' name) : Fresh old routes' name hops :=
  ⟨h.faces, hsame ▸ h.walked, hsame ▸ h.mem, h.old⟩

omit [DecidableEq κ] in
lemma Fresh.rootReady (h : Fresh old routes [] hops) : RootReady old routes hops :=
  ⟨h.faces, fun nh hnh => (h.mem nh hnh).imp exists_route_of_root And.right, h.old rfl⟩

/-- **An entry that is refreshed has the nexthops that the walk gives**; the root, which is not
cleared, keeps those whose faces have no routes any more. -/
lemma holds_refresh (hfib : fib.Holds nexthops strategy) (hentry : EntryOk hash rib routes name)
    (hall : routes name ≠ [] → allRoutes rib (pathOf hash name) = walked routes name)
    (hready : name = [] → RootReady old routes (nexthops [])) {order : RibOrder} :
    ∃ l, (refresh rib order fib (pathOf hash name)).Holds (update nexthops name l) strategy
      ∧ Fresh old routes name l := by
  -- what is there when the entry has been cleared
  obtain ⟨l, hclear, hnodup, hrouted, hold⟩ : ∃ l,
      (fib.clearNextHops (entryName name)).Holds (update nexthops name l) strategy
        ∧ (l.map (·.nexthop)).Nodup
        ∧ (∀ nh ∈ l, (∃ r ∈ routes name, r.faceID = nh.nexthop) ∨ name = [] ∧ nh.nexthop ∈ old)
        ∧ (name = [] → ∀ f ∈ old, ∃ nh ∈ l, nh.nexthop = f) := by
    rcases eq_or_ne name [] with rfl | hne
    · obtain ⟨hfaces, hrouted, hold⟩ := hready rfl
      refine ⟨nexthops [], ?_, hfaces, fun nh hnh => ?_, fun _ => hold⟩
      · rw [update_eq_self]
        exact hfib
      · exact (hrouted nh hnh).imp_right fun hf => ⟨rfl, hf⟩
    · refine ⟨[], ?_, nodup_nil, fun nh hnh => absurd hnh not_mem_nil, fun h => absurd h hne⟩
      rw [entryName, if_neg hne]
      exact hfib.clearNextHops
  rw [refresh, hentry.name, hentry.routes, entryName_getD]
  split_ifs with hnone
  · refine ⟨l, hclear, hnodup, ?_, fun nh hnh => (hrouted nh hnh).imp_left ?_, hold⟩
    · simp [walkedHops, hnone]
    · simp [hnone]
  · have hlists := lists_minCosts (walked routes name)
    have hperm := perm_rangeOrder hlists.faces.of_map (order.nexthops (pathOf hash name))
    have hnew := (hperm.map (·.nexthop)).nodup_iff.mpr hlists.faces
    have hinsert := holds_foldl_insertNextHop hclear name
      (rangeOrder (minCosts (walked routes name)) (order.nexthops (pathOf hash name)))
    obtain ⟨hfaces, hmem⟩ := mem_foldl_insertHop hnew hnodup
    have hwalked : ∀ nh, nh ∈ walkedHops routes name ↔ nh ∈ rangeOrder
        (minCosts (walked routes name)) (order.nexthops (pathOf hash name)) := fun nh => by
      rw [walkedHops, if_neg hnone, hperm.mem_iff, hlists.mem]
    rw [update_self, update_idem] at hinsert
    rw [hall hnone]
    refine ⟨_, hinsert, hfaces, fun nh hnh => (hmem nh).mpr (.inl ((hwalked nh).mp hnh)),
      fun nh hnh => ?_, fun hname f hf => ?_⟩
    · rcases (hmem nh).mp hnh with hin | ⟨hin, hout⟩
      · exact .inl ((hwalked nh).mpr hin)
      · refine .inr ((hrouted nh hin).resolve_left ?_)
        rintro ⟨r, hr, hface⟩
        obtain ⟨nh', hnh', hface'⟩ := exists_minHop
          (show r ∈ walked routes name from mem_append_left _ hr)
        refine hout (mem_map.mpr ⟨nh', ?_, hface'.trans hface⟩)
        exact hperm.mem_iff.mpr ((hlists.mem nh').mpr hnh')
    · obtain ⟨nh, hnh, rfl⟩ := hold hname f hf
      by_cases hin : nh.nexthop ∈ (rangeOrder (minCosts (walked routes name))
          (order.nexthops (pathOf hash name))).map (·.nexthop)
      · obtain ⟨nh', hnh', hface⟩ := mem_map.mp hin
        exact ⟨nh', (hmem nh').mpr (.inl hnh'), hface⟩
      · exact ⟨nh, (hmem nh).mpr (.inr ⟨hnh, hin⟩), rfl⟩

/-! ### The entries below a name -/

/-- The entries that `updateNexthopsEnc` visits, in their order. -/
def visits (rib : Trie ℕ (RibEntry κ)) (order : RibOrder) : ℕ → List ℕ → List (List ℕ)
  | 0, _ => []
  | fuel + 1, entry =>
    entry :: (childOrder rib order entry).flatMap fun k => visits rib order fuel (k :: entry)

lemma updateNexthops_eq {rib : Trie ℕ (RibEntry κ)} {order : RibOrder} {fuel : ℕ} {entry : List ℕ} :
    updateNexthops rib order fuel fib entry
      = (visits rib order fuel entry).foldl (refresh rib order) fib := by
  induction fuel generalizing fib entry with
  | zero => rfl
  | succ fuel ih =>
    rw [updateNexthops, visits, foldl_cons, foldl_flatMap]
    simp only [ih]

omit [DecidableEq κ] in
lemma mem_childOrder {order : RibOrder} {entry : List ℕ} {k : ℕ} :
    k ∈ childOrder rib order entry ↔ k :: entry ∈ rib.paths := by
  rw [childOrder, mem_rangeOrder, mem_sort, mem_children]

omit [DecidableEq κ] in
lemma mem_paths_of_mem_visits {order : RibOrder} {fuel : ℕ} {entry q : List ℕ}
    (h : q ∈ visits rib order fuel entry) : q = entry ∨ q ∈ rib.paths := by
  induction fuel generalizing entry with
  | zero => exact absurd h not_mem_nil
  | succ fuel ih =>
    rcases mem_cons.mp h with rfl | h
    · exact .inl rfl
    · obtain ⟨k, hk, hq⟩ := mem_flatMap.mp h
      rcases ih hq with rfl | hq
      · exact .inr (mem_childOrder.mp hk)
      · exact .inr hq

omit [DecidableEq κ] in
lemma length_lt_levels {q : List ℕ} (hq : q ∈ rib.paths) : q.length < levels rib :=
  Nat.lt_succ_of_le (le_sup (f := length) hq)

omit [DecidableEq κ] in
lemma mem_visits {order : RibOrder} {fuel : ℕ} {entry q : List ℕ} (hq : q ∈ rib.paths)
    (hbelow : entry <:+ q) (hfuel : q.length < entry.length + fuel) :
    q ∈ visits rib order fuel entry := by
  induction fuel generalizing entry with
  | zero => exact absurd hbelow.length_le (Nat.not_le.mpr hfuel)
  | succ fuel ih =>
    rw [visits, List.mem_cons]
    rcases eq_or_ne q entry with rfl | hne
    · exact .inl rfl
    · obtain ⟨ks, rfl⟩ := hbelow
      rcases eq_nil_or_concat ks with rfl | ⟨ks, k, rfl⟩
      · exact absurd rfl hne
      · have hsuffix : k :: entry <:+ ks.concat k ++ entry := ⟨ks, by simp⟩
        refine .inr (mem_flatMap.mpr ⟨k, mem_childOrder.mpr (rib.suffix_mem hsuffix hq),
          ih hsuffix ?_⟩)
        rw [length_cons]
        omega

/-- Entries are refreshed one after another; what has been refreshed stays so. -/
lemma holds_foldl_refresh (hhash : Injective hash) {vs : List (List ℕ)} {order : RibOrder}
    (hvs : ∀ q ∈ vs, ∃ n, pathOf hash n = q ∧ EntryOk hash rib routes n
      ∧ (routes n ≠ [] → allRoutes rib q = walked routes n))
    (hfib : fib.Holds nexthops strategy)
    (hready : [] ∈ vs → RootReady old routes (nexthops [])) :
    ∃ nexthops', (vs.foldl (refresh rib order) fib).Holds nexthops' strategy
      ∧ ∀ n, pathOf hash n ∈ vs ∨ Fresh old routes n (nexthops n) →
        Fresh old routes n (nexthops' n) := by
  induction vs generalizing fib nexthops with
  | nil =>
    refine ⟨nexthops, hfib, fun n hn => hn.resolve_left not_mem_nil⟩
  | cons q vs ih =>
    obtain ⟨n, rfl, hentry, hall⟩ := hvs q mem_cons_self
    have hroot : n = [] → RootReady old routes (nexthops []) := by
      rintro rfl
      exact hready mem_cons_self
    obtain ⟨l, hstep, hfresh⟩ := holds_refresh hfib hentry hall hroot
    have hready' : [] ∈ vs → RootReady old routes (update nexthops n l []) := by
      intro hin
      rcases eq_or_ne [] n with rfl | hne
      · rw [update_self]
        exact hfresh.rootReady
      · rw [update_of_ne hne]
        exact hready (mem_cons_of_mem _ hin)
    obtain ⟨nexthops', hheld, hrest⟩ := ih (fun q hq => hvs q (mem_cons_of_mem _ hq))
      hstep hready'
    refine ⟨nexthops', hheld, fun n' hn' => hrest n' ?_⟩
    rcases eq_or_ne n' n with rfl | hne
    · rw [update_self]
      exact .inr hfresh
    · rw [update_of_ne hne]
      refine hn'.imp_left fun hin => (mem_cons.mp hin).resolve_left fun heq => ?_
      exact hne (pathOf_injective hhash heq)

/-- The RIB has these routes, and the FIB the nexthops that the walk gives, and at the root those
of `old` faces. -/
structure Tidy (hash : κ → ℕ) (old : Set Face) (s : RibTable κ) (routes : List κ → List Route) :
    Prop where
  rib : RibHolds hash s.rib routes
  fib : ∃ nexthops strategy, s.fib.Holds nexthops strategy ∧ ∀ n, Fresh old routes n (nexthops n)

variable {s : RibTable κ}

/-- A name that is not below another does not see its routes. -/
lemma walkedHops_update_of_not_below {n : List κ} (h : ¬ name <+: n) :
    walkedHops (update routes name rs) n = walkedHops routes n := by
  have hsame : ∀ q, q <+: n → update routes name rs q = routes q := fun q hq =>
    update_of_ne (by rintro rfl; exact h hq) _ _
  have habove : n.inits.reverse.flatMap (fun q => inheritable (update routes name rs q))
      = n.inits.reverse.flatMap fun q => inheritable (routes q) :=
    flatMap_congr fun q hq => by
      rw [hsame q ((mem_inits q n).mp (mem_reverse.mp hq))]
  rw [walkedHops, walkedHops, walked, walked, hsame n prefix_rfl, habove]

/-- **To refresh the entries below a name whose routes have changed is enough**, with the faces that
leave the root among the `old` ones. -/
lemma tidy_update (hhash : Injective hash) (h : Tidy hash old s routes)
    (hrib : RibHolds hash rib (update routes name rs))
    (hentry : EntryOk hash rib (update routes name rs) name)
    (hroot : name = [] → ∀ r ∈ routes [], (∃ r' ∈ rs, r'.faceID = r.faceID) ∨ r.faceID ∈ old)
    (order : RibOrder) :
    Tidy hash old ⟨rib, updateNexthops rib order (levels rib) s.fib
      (pathOf hash name)⟩ (update routes name rs) := by
  obtain ⟨nexthops, strategy, hfib, hfresh⟩ := h.fib
  have hready : [] ∈ visits rib order (levels rib) (pathOf hash name) →
      RootReady old (update routes name rs) (nexthops []) := by
    intro _
    obtain ⟨hfaces, hrouted, hold⟩ := (hfresh []).rootReady
    refine ⟨hfaces, fun nh hnh => ?_, hold⟩
    rcases hrouted nh hnh with ⟨r, hr, hface⟩ | hout
    · rcases eq_or_ne [] name with rfl | hne
      · rw [update_self, ← hface]
        exact hroot rfl r hr
      · rw [update_of_ne hne]
        exact .inl ⟨r, hr, hface⟩
    · exact .inr hout
  have hvs : ∀ q ∈ visits rib order (levels rib) (pathOf hash name),
      ∃ n, pathOf hash n = q ∧ EntryOk hash rib (update routes name rs) n
        ∧ (update routes name rs n ≠ [] →
          allRoutes rib q = walked (update routes name rs) n) := by
    intro q hq
    rcases mem_paths_of_mem_visits hq with rfl | hq
    · refine ⟨name, rfl, hentry, fun hne => hrib.allRoutes ?_⟩
      by_contra hout
      exact hne (hrib.none name hout)
    · obtain ⟨n, rfl⟩ := hrib.covered q hq
      exact ⟨n, rfl, hrib.entry n hq, fun _ => hrib.allRoutes hq⟩
  obtain ⟨nexthops', hheld, hfresh'⟩ := holds_foldl_refresh hhash hvs hfib hready
  refine ⟨hrib, nexthops', strategy, ?_, fun n => hfresh' n ?_⟩
  · rw [updateNexthops_eq]
    exact hheld
  · by_cases hbelow : name <+: n
    · by_cases hin : pathOf hash n ∈ rib.paths
      · exact .inl (mem_visits hin (pathOf_suffix hbelow)
          (Nat.lt_add_left _ (length_lt_levels hin)))
      · rcases eq_or_ne n name with rfl | hne
        · exact .inl (by rw [levels, visits]; exact mem_cons_self)
        · -- without an entry there are no routes, before and after
          have hnone := hrib.none n hin
          rw [update_of_ne hne] at hnone
          refine .inr ((hfresh n).congr ?_)
          rw [walkedHops, walkedHops, update_of_ne hne]
          simp only [hnone, if_true]
    · exact .inr ((hfresh n).congr (walkedHops_update_of_not_below hbelow).symm)

end Mars
