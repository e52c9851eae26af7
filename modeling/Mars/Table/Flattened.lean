import Mars.Table.RibFib

/-!
The FIB is the flattened RIB.

* `tidy_addEncRoute`, `tidy_withdraw`, `tidy_cleanUpFace`: every operation keeps `Tidy`, with the
  routes that it is meant to leave;
* `walkedHops_eq_flattened`: the walk gives the nexthops that are meant, unless a name inherits
  past a capture route;
* `fib_is_flattened_rib`: after every sequence of operations, none of which takes the last route of
  a face from the root or lets a name inherit past a capture route, the FIB has the nexthops that
  are meant;
* `face_disappears`: a face that is cleaned up has no routes and no nexthops left exactly if it had
  one route at a name at most and no nexthop at the root.
-/

namespace Mars

open Function List RibTable RibOp Steps

variable {κ : Type*} [DecidableEq κ] {hash : κ → ℕ} {s : RibTable κ}
  {routes : List κ → List Route} {name : List κ} {faceID : Face} {old : Set Face}

/-! ### One entry -/

lemma exists_mem_addRoute {rs : List Route} {r : Route} (h : r ∈ rs) {route : Route} :
    ∃ r' ∈ addRoute route rs, r'.faceID = r.faceID := by
  induction rs with
  | nil => exact absurd h not_mem_nil
  | cons hd rs ih =>
    rw [addRoute]
    split_ifs with hsame
    · rcases mem_cons.mp h with rfl | h
      · exact ⟨route, mem_cons_self, hsame.1.symm⟩
      · exact ⟨r, mem_cons_of_mem _ h, rfl⟩
    · rcases mem_cons.mp h with rfl | h
      · exact ⟨r, mem_cons_self, rfl⟩
      · obtain ⟨r', hr', hface⟩ := ih h
        exact ⟨r', mem_cons_of_mem _ hr', hface⟩

lemma tidy_addEncRoute (hhash : Injective hash) (h : Tidy hash old s routes) (name : List κ)
    (route : Route) (order : RibOrder) :
    Tidy hash old (s.addEncRoute hash name route order)
      (update routes name (addRoute route (routes name))) := by
  obtain ⟨hpath, hmem, hfill⟩ := h.rib.fill hhash name
  have hrib := hfill.modify hhash hmem (addRoute route)
  have hupdate := tidy_update hhash h hrib (hrib.entry name hmem)
    (fun hroot r hr => .inl (exists_mem_addRoute (by rwa [hroot]))) order
  rwa [← hpath] at hupdate

lemma tidy_withdraw (hhash : Injective hash) (h : Tidy hash old s routes)
    (hmem : pathOf hash name ∈ s.rib.paths) {test : Route → Bool}
    (hroot : name = [] → ∀ r ∈ routes [],
      (∃ r' ∈ (routes []).eraseP test, r'.faceID = r.faceID) ∨ r.faceID ∈ old)
    (order : RibOrder) :
    Tidy hash old (s.withdraw (pathOf hash name) test order)
      (update routes name ((routes name).eraseP test)) := by
  have hrib := h.rib.modify hhash hmem (eraseP test)
  have hpruned := hrib.prune (show pathOf hash name ∈ _ from hmem)
  refine tidy_update hhash h hpruned.1 hpruned.2 ?_ order
  rintro rfl
  exact hroot rfl

/-- Only the entry itself may go. -/
lemma paths_withdraw (s : RibTable κ) (p : List ℕ) (test : Route → Bool) (order : RibOrder) :
    (s.withdraw p test order).rib.paths ⊆ s.rib.paths
      ∧ ∀ q ∈ s.rib.paths, q ≠ p → q ∈ (s.withdraw p test order).rib.paths := by
  rw [withdraw]
  dsimp only
  rcases pruneIfEmpty_cases
    with heq | ⟨-, -, hpaths, -⟩
  · rw [heq]
    exact ⟨Finset.Subset.refl _, fun q hq _ => hq⟩
  · rw [hpaths]
    exact ⟨Finset.erase_subset _ _, fun q hq hne => Finset.mem_erase.mpr ⟨hne, hq⟩⟩

lemma tidy_removeRouteEnc (hhash : Injective hash) (h : Tidy hash old s routes) {origin : ℕ}
    (hroot : name = [] → ∀ r ∈ routes [],
      (∃ r' ∈ (routes []).eraseP fun r => r.faceID = faceID ∧ r.origin = origin,
        r'.faceID = r.faceID) ∨ r.faceID ∈ old) {order : RibOrder} :
    Tidy hash old (s.removeRouteEnc hash name faceID origin order)
      (update routes name
        ((routes name).eraseP fun r => r.faceID = faceID ∧ r.origin = origin)) := by
  rw [removeRouteEnc]
  rcases h.rib.findExact with ⟨hfind, hmem⟩ | ⟨hfind, hnone⟩
  · rw [hfind]
    exact tidy_withdraw hhash h hmem hroot order
  · rwa [hfind, hnone, eraseP_nil, ← hnone, update_eq_self]

/-! ### A face goes away -/

/-- The routes when the entries at and below a name have lost one of a face. -/
def cleaned (faceID : Face) (routes : List κ → List Route) (name : List κ) (n : List κ) :
    List Route :=
  if name <+: n then (routes n).eraseP (·.faceID = faceID) else routes n

/-- The routes when the entries below some children of a name have lost one of a face. -/
def cleanedChildren (faceID : Face) (routes : List κ → List Route) (name cs : List κ)
    (n : List κ) : List Route :=
  if ∃ c ∈ cs, name ++ [c] <+: n then (routes n).eraseP (·.faceID = faceID) else routes n

omit [DecidableEq κ] in
/-- Two children of one name have no name below them in common. -/
lemma eq_of_below_children {n : List κ} {c c' : κ} (h : name ++ [c] <+: n)
    (h' : name ++ [c'] <+: n) : c = c' := by
  obtain ⟨rest, rfl⟩ := h
  obtain ⟨rest', heq⟩ := h'
  rw [append_assoc, append_assoc] at heq
  exact (List.cons.inj (append_cancel_left heq)).1.symm

lemma cleaned_cleanedChildren {cs : List κ} {c : κ} (hc : c ∉ cs) :
    cleaned faceID (cleanedChildren faceID routes name cs) (name ++ [c])
      = cleanedChildren faceID routes name (cs ++ [c]) := by
  funext n
  rw [cleaned, cleanedChildren, cleanedChildren]
  by_cases hbelow : name ++ [c] <+: n
  · have hno : ¬ ∃ c' ∈ cs, name ++ [c'] <+: n := by
      rintro ⟨c', hc', hbelow'⟩
      exact hc (eq_of_below_children hbelow hbelow' ▸ hc')
    rw [if_pos hbelow, if_neg hno, if_pos ⟨c, by simp, hbelow⟩]
  · rw [if_neg hbelow]
    refine if_congr ⟨?_, ?_⟩ rfl rfl
    · rintro ⟨c', hc', hbelow'⟩
      exact ⟨c', mem_append_left _ hc', hbelow'⟩
    · rintro ⟨c', hc', hbelow'⟩
      rcases mem_append.mp hc' with hc' | hc'
      · exact ⟨c', hc', hbelow'⟩
      · rw [mem_singleton.mp hc'] at hbelow'
        exact absurd hbelow' hbelow

/-- Only entries at and below a name may go. -/
structure Thinned (rib rib' : Trie ℕ (RibEntry κ)) (p : List ℕ) : Prop where
  subset : rib'.paths ⊆ rib.paths
  kept : ∀ q ∈ rib.paths, ¬ p <:+ q → q ∈ rib'.paths

/-- `cleanUpFace`, from one entry and over `fuel` levels. -/
def CleansUp (hash : κ → ℕ) (old : Set Face) (faceID : Face) (order : RibOrder) (fuel : ℕ) : Prop :=
  ∀ (s : RibTable κ) (routes : List κ → List Route) (name : List κ), Tidy hash old s routes →
    pathOf hash name ∈ s.rib.paths →
    (∀ q ∈ s.rib.paths, q.length < name.length + fuel) →
    (name = [] → ∀ r ∈ routes [],
      (∃ r' ∈ (routes []).eraseP (·.faceID = faceID), r'.faceID = r.faceID) ∨ r.faceID ∈ old) →
    Tidy hash old (cleanUpFace faceID order fuel s (pathOf hash name))
        (cleaned faceID routes name)
      ∧ Thinned s.rib (cleanUpFace faceID order fuel s (pathOf hash name)).rib
        (pathOf hash name)

/-- The loop over the children of an entry. -/
lemma tidy_cleanUpChildren (hhash : Injective hash) {order : RibOrder} {fuel : ℕ}
    (hclean : CleansUp hash old faceID order fuel) (h : Tidy hash old s routes)
    (hfuel : ∀ q ∈ s.rib.paths, q.length < name.length + (fuel + 1)) {cs : List κ}
    (hnodup : cs.Nodup) (hcs : ∀ c ∈ cs, pathOf hash (name ++ [c]) ∈ s.rib.paths) :
    let s' := (cs.map hash).foldl
      (fun s k => cleanUpFace faceID order fuel s (k :: pathOf hash name)) s
    Tidy hash old s' (cleanedChildren faceID routes name cs)
      ∧ s'.rib.paths ⊆ s.rib.paths
      ∧ ∀ q ∈ s.rib.paths, (∀ c ∈ cs, ¬ pathOf hash (name ++ [c]) <:+ q) → q ∈ s'.rib.paths := by
  induction cs using reverseRecOn with
  | nil =>
    refine ⟨?_, Finset.Subset.refl _, fun q hq _ => hq⟩
    have hsame : cleanedChildren faceID routes name [] = routes := by
      funext n
      rw [cleanedChildren, if_neg (by simp)]
    rwa [hsame]
  | append_singleton cs c ih =>
    rw [nodup_append] at hnodup
    obtain ⟨hnodup, -, hdisjoint⟩ := hnodup
    have hc : c ∉ cs := fun hin => hdisjoint c hin c (mem_singleton_self c) rfl
    obtain ⟨htidy, hsub, hkept⟩ := ih hnodup fun c hc => hcs c (mem_append_left _ hc)
    have hpath : pathOf hash (name ++ [c]) = hash c :: pathOf hash name :=
      pathOf_append
    -- the entry of this child is still there, as only entries below its siblings have gone
    have hmem := hkept _ (hcs c (by simp)) fun c' hc' hsuffix => by
      have heq := hsuffix.eq_of_length (by simp [pathOf])
      have hlast := append_cancel_left (pathOf_injective hhash heq)
      exact hc ((List.cons.inj hlast).1 ▸ hc')
    obtain ⟨htidy', hthin⟩ := hclean _ _ (name ++ [c]) htidy hmem
      (fun q hq => by
        have hlt := hfuel q (hsub hq)
        rw [length_append, length_singleton]
        omega)
      (fun hnil => absurd hnil (by simp))
    rw [cleaned_cleanedChildren hc] at htidy'
    rw [hpath] at htidy' hthin
    rw [map_append, map_singleton, foldl_concat]
    refine ⟨htidy', hthin.subset.trans hsub, fun q hq hout => hthin.kept q ?_ ?_⟩
    · exact hkept q hq fun c' hc' => hout c' (mem_append_left _ hc')
    · rw [← hpath]
      exact hout c (by simp)

omit [DecidableEq κ] in
/-- The children of an entry, as components. -/
lemma exists_children (h : RibHolds hash s.rib routes) (hhash : Injective hash)
    {order : RibOrder} {name : List κ} :
    ∃ cs : List κ, cs.map hash = childOrder s.rib order (pathOf hash name) ∧ cs.Nodup
      ∧ ∀ c, c ∈ cs ↔ pathOf hash (name ++ [c]) ∈ s.rib.paths := by
  have hrange : childOrder s.rib order (pathOf hash name) ∈ Set.range (List.map hash) := by
    rw [Set.range_list_map]
    intro k hk
    obtain ⟨n, hn⟩ := h.covered _ (mem_childOrder.mp hk)
    have hin : k ∈ pathOf hash n := hn ▸ mem_cons_self
    obtain ⟨c, -, hc⟩ := mem_map.mp (mem_reverse.mp hin)
    exact ⟨c, hc⟩
  obtain ⟨cs, hcs⟩ := hrange
  have hnodup : (childOrder s.rib order (pathOf hash name)).Nodup :=
    nodup_rangeOrder (Finset.sort_nodup _ _)
  refine ⟨cs, hcs, (hcs ▸ hnodup).of_map, fun c => ?_⟩
  rw [← mem_map_of_injective hhash, hcs, mem_childOrder, pathOf_append]
  rfl

/-- The entries below the children of a name, and then its own. -/
lemma update_cleanedChildren (h : RibHolds hash s.rib routes) (faceID : Face) {cs : List κ}
    (hcs : ∀ c, c ∈ cs ↔ pathOf hash (name ++ [c]) ∈ s.rib.paths) :
    update (cleanedChildren faceID routes name cs) name ((routes name).eraseP (·.faceID = faceID))
      = cleaned faceID routes name := by
  funext n
  rcases eq_or_ne n name with rfl | hne
  · rw [update_self, cleaned, if_pos prefix_rfl]
  · rw [update_of_ne hne, cleaned, cleanedChildren]
    by_cases hbelow : name <+: n
    · obtain ⟨rest, rfl⟩ := hbelow
      obtain ⟨c, rest, rfl⟩ := exists_cons_of_ne_nil (l := rest) (by rintro rfl; simp at hne)
      have hchild : name ++ [c] <+: name ++ c :: rest := ⟨rest, by simp⟩
      by_cases hc : c ∈ cs
      · rw [if_pos ⟨c, hc, hchild⟩, if_pos (prefix_append _ _)]
      · have hout : pathOf hash (name ++ c :: rest) ∉ s.rib.paths := fun hin =>
          hc ((hcs c).mpr (s.rib.suffix_mem (pathOf_suffix hchild) hin))
        simp only [h.none _ hout, eraseP_nil, ite_self]
    · rw [if_neg hbelow, if_neg]
      rintro ⟨c, -, hchild⟩
      exact hbelow ((prefix_append name [c]).trans hchild)

/-- **`cleanUpFace` takes one route of the face from every entry at and below a name**, children
first. -/
lemma tidy_cleanUpFace (hhash : Injective hash) (faceID : Face) (order : RibOrder) (fuel : ℕ) :
    CleansUp hash old faceID order fuel := by
  induction fuel with
  | zero =>
    intro s routes name h hmem hfuel hroot
    have hlt := hfuel _ hmem
    simp [pathOf] at hlt
  | succ fuel ih =>
    intro s routes name h hmem hfuel hroot
    obtain ⟨cs, hcs, hnodup, hmemcs⟩ := exists_children h.rib hhash
    obtain ⟨htidy, hsub, hkept⟩ := tidy_cleanUpChildren hhash ih h hfuel hnodup
      fun c hc => (hmemcs c).mp hc
    have hfinal := update_cleanedChildren h.rib faceID hmemcs
    -- the loop over the children has left the entry itself alone
    have hchild : ∀ c, ¬ name ++ [c] <+: name := fun c hc => by
      have hle := hc.length_le
      simp at hle
    have hown : cleanedChildren faceID routes name cs name = routes name :=
      if_neg (by rintro ⟨c, -, hc⟩; exact hchild c hc)
    have hmem' := hkept _ hmem fun c _ hsuffix => by
      have hle := hsuffix.length_le
      simp [pathOf] at hle
    have hroutes := (htidy.rib.entry name hmem').routes
    rw [hown] at hroutes
    have hkept' : ∀ q ∈ s.rib.paths, ¬ pathOf hash name <:+ q → q ∈ _ := fun q hq hout =>
      hkept q hq fun c _ hsuffix =>
        hout ((pathOf_suffix (prefix_append name [c])).trans hsuffix)
    rw [hcs] at htidy hsub hkept' hmem' hroutes
    rw [RibTable.cleanUpFace]
    generalize (childOrder s.rib order (pathOf hash name)).foldl _ s = s'
      at htidy hsub hkept' hmem' hroutes ⊢
    rw [hroutes]
    split_ifs with hany
    · have hwithdraw := tidy_withdraw hhash htidy hmem'
        (by rintro rfl; rw [hown]; exact hroot rfl) order
      rw [hown, hfinal] at hwithdraw
      obtain ⟨hless, hmore⟩ := paths_withdraw s' (pathOf hash name) (·.faceID = faceID) order
      refine ⟨hwithdraw, hless.trans hsub, fun q hq hout => hmore q (hkept' q hq hout) ?_⟩
      rintro rfl
      exact hout suffix_rfl
    · have hnone : (routes name).eraseP (·.faceID = faceID) = routes name :=
        eraseP_of_forall_not fun r hr hface => hany (any_eq_true.mpr ⟨r, hr, hface⟩)
      rw [hnone, ← hown, update_eq_self] at hfinal
      rw [← hfinal]
      exact ⟨htidy, hsub, hkept'⟩

lemma tidy_step (hhash : Injective hash) (h : Tidy hash old s routes) {op : RibOp κ}
    (hroot : ∀ r ∈ routes [],
      (∃ r' ∈ op.change routes [], r'.faceID = r.faceID) ∨ r.faceID ∈ old) :
    Tidy hash old (s.step hash op) (op.change routes) := by
  cases op with
  | addRoute name route order => exact tidy_addEncRoute hhash h name route order
  | removeRoute name faceID origin order =>
    refine tidy_removeRouteEnc hhash h ?_
    rintro rfl
    rw [change, update_self] at hroot
    exact hroot
  | cleanUpFace faceID order =>
    have hclean := (tidy_cleanUpFace hhash faceID order _ s routes [] h s.rib.root_mem
      (fun q hq => Nat.lt_add_left _ (length_lt_levels hq)) fun _ => hroot).1
    have hall : cleaned faceID routes [] = change routes (.cleanUpFace faceID order) := by
      funext n
      rw [cleaned, if_pos nil_prefix]
      rfl
    rwa [hall] at hclean

/-! ### What is meant -/

lemma inheritable_of_no_capture {rs : List Route} (h : hasCaptureRoute rs = false) :
    inheritable rs = rs.filter Route.hasChildInheritFlag := by
  induction rs with
  | nil => rfl
  | cons r rs ih =>
    rw [hasCaptureRoute, any_cons, Bool.or_eq_false_iff] at h
    rw [inheritable, h.1, if_neg Bool.false_ne_true, ih h.2, filter_cons]
    split_ifs <;> rfl

lemma flatMap_inheritable {chain : List (List Route)} (h : CaptureStops chain) :
    chain.flatMap inheritable = inherited chain := by
  induction chain with
  | nil => rfl
  | cons rs above ih =>
    rw [CaptureStops] at h
    rw [flatMap_cons, inherited]
    split_ifs at h ⊢ with hcapture
    · rw [h.1, flatMap_eq_nil_iff.mpr h.2]
    · rw [inheritable_of_no_capture (Bool.not_eq_true _ ▸ hcapture), ih h]

omit [DecidableEq κ] in
/-- Where no name inherits past a capture route, the walk gives the nexthops that are meant.  That
the walk begins at the name itself makes no difference. -/
lemma walkedHops_eq_flattened (hne : routes name ≠ [])
    (h : hasCaptureRoute (routes name) = false → CaptureStops (ancestors routes name)) :
    walkedHops routes name = flattened routes name := by
  rw [walkedHops, if_neg hne, walked, flattened]
  split_ifs with hcapture
  · rfl
  · have hwalk : name.inits.reverse.flatMap (fun q => inheritable (routes q))
        = inheritable (routes name) ++ inherited (ancestors routes name) := by
      have hself : name.inits.reverse = name :: name.inits.reverse.tail := by
        induction name using reverseRecOn with
        | nil => rfl
        | append_singleton n c _ => simp [inits_append]
      rw [hself, flatMap_cons, ← flatMap_inheritable (h (Bool.not_eq_true _ ▸ hcapture)),
        ancestors, flatMap_map]
    rw [hwalk]
    refine minHops_congr fun r => ?_
    simp only [mem_append]
    refine or_congr_right' fun hout => or_iff_right fun hin => ?_
    exact hout (inheritable_subset hin)

/-! ### Sequences of operations -/

lemma tidy_new (hhash : Injective hash) {defaultStrategy : List κ} :
    Tidy hash ∅ (new defaultStrategy) fun _ => [] :=
  ⟨ribHolds_new hhash, _, _, FibStrategyTree.holds_new, fun _ => ⟨nodup_nil, by simp [walkedHops],
    fun _ h => absurd h not_mem_nil, fun _ _ h => h.elim⟩⟩

omit [DecidableEq κ] in
lemma Tidy.routesOf (h : Tidy hash old s routes) : s.routesOf hash = routes := by
  funext n
  rw [RibTable.routesOf]
  rcases h.rib.findExact with ⟨hfind, hmem⟩ | ⟨hfind, hnone⟩
  · rw [hfind]
    exact (h.rib.entry n hmem).routes
  · rw [hfind, hnone]

/-- No name inherits past a capture route. -/
def CapturesStop (routes : List κ → List Route) : Prop :=
  ∀ name, routes name ≠ [] → hasCaptureRoute (routes name) = false →
    CaptureStops (ancestors routes name)

/-- The operation leaves every face that has a route at the root one there, and lets no name inherit
past a capture route. -/
structure Regular (routes : List κ → List Route) (op : RibOp κ) : Prop where
  root : ∀ r ∈ routes [], ∃ r' ∈ op.change routes [], r'.faceID = r.faceID
  capture : CapturesStop (op.change routes)

/-- The routes that a sequence of operations is meant to leave. -/
def routesAfter (ops : List (RibOp κ)) : List κ → List Route :=
  run change (fun _ => []) ops

lemma tidy_run (hhash : Injective hash) {ops : List (RibOp κ)} (h : Tidy hash ∅ s routes)
    (hops : Guarded change Regular routes ops) :
    Tidy hash ∅ (Steps.run (step hash) s ops) (Steps.run change routes ops) := by
  induction ops generalizing s routes with
  | nil => exact h
  | cons op ops ih => exact ih (tidy_step hhash h fun r hr => .inl (hops.1.root r hr)) hops.2

/-- **The FIB is the flattened RIB**, after every sequence of operations none of which takes the
last route of a face from the root, whose nexthops are never cleared, or lets a name inherit past a
capture route, which ends only the loop over the routes of its own entry. -/
theorem fib_is_flattened_rib {hash : κ → ℕ} (hhash : Injective hash) (defaultStrategy : List κ)
    (ops : List (RibOp κ)) (hops : Guarded change Regular (fun _ => []) ops) :
    let s := run hash defaultStrategy ops
    s.routesOf hash = routesAfter ops ∧ ∀ name,
      (routesAfter ops name ≠ [] → Lists (s.fib.nexthopsOf name) (flattened (routesAfter ops) name))
      ∧ (routesAfter ops name = [] → s.fib.nexthopsOf name = []) := by
  intro s
  have htidy : Tidy hash ∅ s (routesAfter ops) :=
    tidy_run hhash (tidy_new hhash) hops
  have hstop : CapturesStop (routesAfter ops) :=
    guarded_invariant (fun _ _ _ h => h.capture) (fun _ hne => absurd rfl hne) hops
  obtain ⟨nexthops, strategy, hfib, hfresh⟩ := htidy.fib
  have hlists : ∀ name, Lists (nexthops name) (walkedHops (routesAfter ops) name) := fun name =>
    ⟨(hfresh name).faces, fun nh => ⟨fun hnh => ((hfresh name).mem nh hnh).resolve_right And.right,
      (hfresh name).walked nh⟩⟩
  refine ⟨htidy.routesOf, fun name => ⟨fun hne => ?_, fun hnone => ?_⟩⟩
  · rw [hfib.nexthopsOf, ← walkedHops_eq_flattened hne (hstop name hne)]
    exact hlists name
  · have hempty := hlists name
    rw [walkedHops, if_pos hnone] at hempty
    rw [hfib.nexthopsOf]
    exact hempty.nil_iff.mpr rfl

/-- Loops over maps in the order of the keys. -/
def anyOrder : RibOrder := ⟨fun _ => [], fun _ => []⟩

/-- A default route, a route that captures, and one below both. -/
def capturedRoutes (inherit : ℕ) : List (RibOp ℕ) :=
  [.addRoute [] ⟨1, 0, 10, inherit⟩ anyOrder, .addRoute [7] ⟨2, 0, 20, 3⟩ anyOrder,
    .addRoute [7, 8] ⟨3, 0, 30, 0⟩ anyOrder]

lemma regular_capturedRoutes : Guarded change Regular (fun _ => []) (capturedRoutes 0) := by
  refine ⟨⟨by decide, ?_⟩, ⟨by decide, ?_⟩, ⟨by decide, ?_⟩, trivial⟩
  all_goals
    intro name hne hno
    -- there are routes at three names at most
    by_cases h : name ∈ [[], [7], [7, 8]]
    · simp only [mem_cons, not_mem_nil, or_false] at h
      rcases h with rfl | rfl | rfl <;> first | exact absurd rfl hne | decide
    · simp only [mem_cons, not_mem_nil, or_false, not_or] at h
      simp [change, h] at hne

theorem fib_is_flattened_rib_captured :
    Guarded change Regular (fun _ => []) (capturedRoutes 0)
      ∧ Lists ((run id [] (capturedRoutes 0)).fib.nexthopsOf [7, 8])
        (flattened (routesAfter (capturedRoutes 0)) [7, 8])
      ∧ flattened (routesAfter (capturedRoutes 0)) [7, 8] = {⟨2, 20⟩, ⟨3, 30⟩} :=
  ⟨regular_capturedRoutes,
    ((fib_is_flattened_rib injective_id [] (capturedRoutes 0) regular_capturedRoutes).2
      [7, 8]).1 (by decide), by decide⟩

/-- A default route is added and removed. -/
def removedDefault : List (RibOp ℕ) :=
  [.addRoute [] ⟨1, 0, 10, 0⟩ anyOrder, .removeRoute [] 1 0 anyOrder]

/-- The nexthop of a default route outlives it, and a default route is inherited past a capture
route. -/
theorem default_route_outlives_removal :
    (run id [] removedDefault).routesOf id [] = []
    ∧ (run id [] removedDefault).fib.nexthopsOf [] = [⟨1, 10⟩]
    ∧ (run id [] (capturedRoutes 1)).fib.nexthopsOf [7, 8] = [⟨3, 30⟩, ⟨2, 20⟩, ⟨1, 10⟩]
    ∧ flattened (routesAfter (capturedRoutes 1)) [7, 8] = {⟨2, 20⟩, ⟨3, 30⟩} := by
  refine ⟨by decide +kernel, by decide +kernel, by decide +kernel, by decide⟩

/-! ### A destroyed face -/

lemma eraseP_eq_filter_iff {rs : List Route} :
    rs.eraseP (·.faceID = faceID) = rs.filter (·.faceID ≠ faceID)
      ↔ rs.countP (·.faceID = faceID) ≤ 1 := by
  induction rs with
  | nil => simp
  | cons r rs ih =>
    by_cases hr : r.faceID = faceID
    · have hrest : rs = rs.filter (·.faceID ≠ faceID) ↔ rs.countP (·.faceID = faceID) ≤ 0 := by
        rw [eq_comm, filter_eq_self, Nat.le_zero, countP_eq_zero]
        simp
      rw [eraseP_cons_of_pos (by simpa using hr), filter_cons_of_neg (by simpa using hr), hrest,
        countP_cons_of_pos (by simpa using hr), Nat.succ_le_succ_iff]
    · rw [eraseP_cons_of_neg (by simpa using hr), filter_cons_of_pos (by simpa using hr),
        countP_cons_of_neg (by simpa using hr), ← ih, cons_inj_right]

omit [DecidableEq κ] in
/-- The nexthops of a name belong to routes of the name or of its ancestors. -/
lemma exists_route_of_walked {nh : FibNextHopEntry} (h : nh ∈ walkedHops routes name) :
    ∃ q, ∃ r ∈ routes q, r.faceID = nh.nexthop := by
  rw [walkedHops] at h
  split_ifs at h
  · simp at h
  · obtain ⟨⟨r, hr, hface, -⟩, -⟩ := mem_minHops.mp h
    rcases mem_append.mp hr with hr | hr
    · exact ⟨name, r, hr, hface⟩
    · split_ifs at hr
      · simp at hr
      · obtain ⟨q, -, hq⟩ := mem_flatMap.mp hr
        exact ⟨q, r, inheritable_subset hq, hface⟩

omit [DecidableEq κ] in
/-- A face with routes at the root may count as an old one. -/
lemma Tidy.rooted (h : Tidy hash old s routes) :
    Tidy hash (old ∪ {f | ∃ r ∈ routes [], r.faceID = f}) s routes := by
  obtain ⟨nexthops, strategy, hfib, hfresh⟩ := h.fib
  refine ⟨h.rib, nexthops, strategy, hfib, fun n => ⟨(hfresh n).faces, (hfresh n).walked,
    fun nh hnh => ((hfresh n).mem nh hnh).imp_right fun hout => ⟨hout.1, .inl hout.2⟩, ?_⟩⟩
  rintro rfl f (hf | ⟨r, hr, rfl⟩)
  · exact (hfresh []).old rfl f hf
  · have hwalked : r ∈ walked routes [] := mem_append_left _ hr
    obtain ⟨nh, hnh, hface⟩ := exists_minHop hwalked
    refine ⟨nh, (hfresh []).walked nh ?_, hface⟩
    rwa [walkedHops, if_neg (ne_nil_of_mem hr)]

lemma tidy_any_run (hhash : Injective hash) {ops : List (RibOp κ)} (h : Tidy hash old s routes) :
    ∃ old, Tidy hash old (Steps.run (step hash) s ops) (Steps.run change routes ops) := by
  induction ops generalizing s routes old with
  | nil => exact ⟨old, h⟩
  | cons op ops ih => exact ih (tidy_step hhash h.rooted fun r hr => .inr (.inr ⟨r, hr, rfl⟩))

/-- **A destroyed face disappears from routing**, that is only its routes go and no nexthop uses it,
exactly if it has one route at a name at most and no nexthop at the root, which is never cleared. -/
theorem face_disappears {hash : κ → ℕ} (hhash : Injective hash) (defaultStrategy : List κ)
    (ops : List (RibOp κ)) (faceID : Face) (order : RibOrder) :
    let s := RibTable.run hash defaultStrategy ops
    let s' := s.step hash (.cleanUpFace faceID order)
    s.routesOf hash = routesAfter ops
    ∧ ((∀ name, s'.routesOf hash name = (s.routesOf hash name).filter (·.faceID ≠ faceID)
          ∧ ∀ nh ∈ s'.fib.nexthopsOf name, nh.nexthop ≠ faceID)
        ↔ (∀ name, (s.routesOf hash name).countP (·.faceID = faceID) ≤ 1)
          ∧ ∀ nh ∈ s.fib.nexthopsOf [], nh.nexthop ≠ faceID) := by
  intro s s'
  obtain ⟨old, htidy⟩ : ∃ old, Tidy hash old s (routesAfter ops) :=
    tidy_any_run hhash (tidy_new hhash)
  have hclean : Tidy hash _ s' (change (routesAfter ops) (.cleanUpFace faceID order)) :=
    tidy_step hhash htidy.rooted fun r hr => .inr (.inr ⟨r, hr, rfl⟩)
  obtain ⟨hops, strategy, hfib, hfresh⟩ := htidy.rooted.fib
  obtain ⟨hops', strategy', hfib', hfresh'⟩ := hclean.fib
  refine ⟨htidy.routesOf, ?_⟩
  simp only [hclean.routesOf, htidy.routesOf, hfib.nexthopsOf, hfib'.nexthopsOf, forall_and]
  refine (and_congr_right fun hroutes => ⟨fun h nh hnh hface => ?_, fun h name nh hnh => ?_⟩).trans
    (and_congr_left' (forall_congr' fun _ => eraseP_eq_filter_iff))
  · have hold := ((hfresh []).mem nh hnh).elim (fun hw => .inr (exists_route_of_root hw)) And.right
    obtain ⟨nh', hnh', hface'⟩ := (hfresh' []).old rfl _ hold
    exact h [] nh' hnh' (hface'.trans hface)
  · rcases (hfresh' name).mem nh hnh with hwalked | ⟨-, hold⟩
    · obtain ⟨q, r, hr, hface⟩ := exists_route_of_walked hwalked
      rw [hroutes] at hr
      rw [← hface]
      simpa using (mem_filter.mp hr).2
    · obtain ⟨nh', hnh', hface⟩ := (hfresh []).old rfl _ hold
      exact hface ▸ h nh' hnh'

/-- Two faces with a route at one name. -/
def twoFaceRoutes : List (RibOp ℕ) :=
  [.addRoute [7] ⟨1, 0, 10, 1⟩ anyOrder, .addRoute [7] ⟨2, 0, 20, 1⟩ anyOrder]

theorem face_disappears_two_faces :
    let s := (RibTable.run id [] twoFaceRoutes).step id (.cleanUpFace 1 anyOrder)
    s.routesOf id [7] = [⟨2, 0, 20, 1⟩] ∧ ∀ nh ∈ s.fib.nexthopsOf [7], nh.nexthop ≠ 1 := by
  obtain ⟨hroutes, hiff⟩ := face_disappears injective_id [] twoFaceRoutes 1 anyOrder
  have hone : ∀ name, (routesAfter twoFaceRoutes name).countP (·.faceID = 1) ≤ 1 := by
    intro name
    rcases eq_or_ne name [7] with rfl | hne
    · decide
    · simp [routesAfter, twoFaceRoutes, change, hne]
  have hall := hiff.mpr ⟨by rwa [hroutes], by decide +kernel⟩ [7]
  rw [hroutes] at hall
  exact hall

/-- Of two routes of a face at one name, one is left, and so is its nexthop; the nexthop of a route
at the root is left without a route. -/
theorem destroyed_face_stays :
    let s := RibTable.run id [] [.addRoute [7] ⟨1, 0, 10, 1⟩ anyOrder,
      .addRoute [7] ⟨1, 128, 20, 1⟩ anyOrder, .addRoute [] ⟨1, 0, 10, 1⟩ anyOrder,
      .cleanUpFace 1 anyOrder]
    s.routesOf id [7] = [⟨1, 128, 20, 1⟩] ∧ s.fib.nexthopsOf [7] = [⟨1, 20⟩]
      ∧ s.routesOf id [] = [] ∧ s.fib.nexthopsOf [] = [⟨1, 10⟩] := by
  decide +kernel

end Mars
