import Mars.Dv.Rib
import Mars.Lib.DistanceVector

/-!
A settled network of distance-vector routers.

* `Settled`: the table of every router has its own entry and, for each neighbour, the column that an
  update writes from the neighbour's advertisement;
* `cost_of_adj`: that column, which is at least one above the neighbour's cost, and exactly that
  unless the neighbour sends through the router itself;
* `settled_network_has_shortest_paths`: costs are distances, and next hops are one step nearer.
-/

namespace Mars.Dv

variable {V : Type*} [DecidableEq V] {hash : V → ℕ} {G : SimpleGraph V} {net : V → Rib V}

/-- The table at `Start`: the router itself at cost 0. -/
def Rib.start (hash : V → ℕ) (router : V) : Rib V := (Rib.new.set hash router router 0).1

/-- Every table has the router's own entry and a column for each neighbour, as an update from its
advertisement would write it, and is refreshed and pruned. -/
structure Settled (hash : V → ℕ) (G : SimpleGraph V) (net : V → Rib V) : Prop where
  ok : ∀ r, (net r).Ok hash
  own : ∀ r d, (net r).cost hash d r = (Rib.start hash r).cost hash d r
  column : ∀ {r n}, G.Adj r n → ∀ d,
    (net r).cost hash d n = ((net r).updateRib hash r n (net n).advert).1.cost hash d n
  only : ∀ {r key e}, (net r).entries.lookup key = some e → ∀ {hop c},
    e.costs.lookup hop = some c → c < costInfinity → ∃ n, hash n = hop ∧ (n = r ∨ G.Adj r n)
  refreshed : ∀ {r key e}, (net r).entries.lookup key = some e → e.Refreshed
  pruned : ∀ {r key e}, (net r).entries.lookup key = some e → e.lowest1 ≠ costInfinity

lemma cost_start (hinj : Function.Injective hash) (r d : V) :
    (Rib.start hash r).cost hash d r = if d = r then 0 else costInfinity := by
  rw [Rib.start, Rib.cost_set hinj]
  by_cases hd : d = r
  · simp [hd]
  · simp only [hd, false_and, if_false]
    rfl

/-- What the router makes of an entry that its neighbour advertises. -/
def advertised (rib : Rib V) (router : V) (e : RibEntry V) : ℕ :=
  AdvEntry.costFor router ⟨e.name, rib.neighbors.lookup e.nextHop1, e.lowest1, e.lowest2⟩

lemma advertised_eq {rib : Rib V} {router : V} {e : RibEntry V} (href : e.Refreshed)
    (hhop : rib.neighbors.lookup e.nextHop1 ≠ some router) :
    advertised rib router e = e.lowest1 + 1 := by
  have hle := href.lowest1_le_infinity
  rw [costInfinity] at hle
  rw [advertised, AdvEntry.costFor, if_neg hhop]
  exact Nat.mod_eq_of_lt (show e.lowest1 + 1 < 2 ^ 64 by omega)

lemma lt_advertised (rib : Rib V) {e : RibEntry V} (href : e.Refreshed)
    (hlt : e.lowest1 < costInfinity) (router : V) : e.lowest1 < advertised rib router e := by
  by_cases hhop : rib.neighbors.lookup e.nextHop1 = some router
  · have hle : e.lowest1 ≤ e.lowest2 := href.seen.le_lowest2
    rw [advertised, AdvEntry.costFor, if_pos hhop]
    split_ifs with hother
    · dsimp only [costInfinity] at hother
      rw [Nat.mod_eq_of_lt (show e.lowest2 + localCost < 2 ^ 64 by rw [localCost]; omega),
        localCost]
      omega
    · exact hlt
  · rw [advertised_eq href hhop]
    exact Nat.lt_succ_self _

namespace Settled

variable {r n d : V}

lemma lowest1_lt (hnet : Settled hash G net) {key : ℕ} {e : RibEntry V}
    (he : (net r).entries.lookup key = some e) : e.lowest1 < costInfinity :=
  lt_of_le_of_ne (hnet.refreshed he).lowest1_le_infinity (hnet.pruned he)

/-- The column of a neighbour. -/
lemma cost_of_adj (hinj : Function.Injective hash) (hnet : Settled hash G net) (hadj : G.Adj r n) :
    (net r).cost hash d n = ((net n).entries.lookup (hash d)).elim costInfinity fun e =>
      min costInfinity (advertised (net n) r e) := by
  rw [hnet.column hadj, Rib.cost_updateRib hinj (hnet.ok r), if_pos rfl,
    Rib.written_advert hinj (hnet.ok n)]
  cases (net n).entries.lookup (hash d) with
  | none => rfl
  | some e =>
    change ((if costInfinity ≤ advertised (net n) r e then none
      else some (advertised (net n) r e)).toList).getLast?.getD costInfinity = min _ _
    split_ifs with hinf
    · exact (min_eq_left hinf).symm
    · exact (min_eq_right (not_le.mp hinf).le).symm

/-- The lowest cost towards `d`. -/
def lowest (hash : V → ℕ) (net : V → Rib V) (d r : V) : ℕ :=
  ((net r).entries.lookup (hash d)).elim costInfinity RibEntry.lowest1

omit [DecidableEq V] in
lemma lowest_of_lookup {e : RibEntry V} (he : (net r).entries.lookup (hash d) = some e) :
    lowest hash net d r = e.lowest1 := by
  rw [lowest, he]
  rfl

lemma lowest_le_cost (hnet : Settled hash G net) (r n d : V) :
    lowest hash net d r ≤ (net r).cost hash d n := by
  rw [lowest, Rib.cost]
  cases he : (net r).entries.lookup (hash d) with
  | none => exact le_rfl
  | some e => exact (hnet.refreshed he).lowest1_le

omit [DecidableEq V] in
lemma lookup_of_lowest_lt (hlt : lowest hash net d r < costInfinity) :
    ∃ e, (net r).entries.lookup (hash d) = some e := by
  cases he : (net r).entries.lookup (hash d) with
  | none =>
    rw [lowest, he] at hlt
    exact absurd hlt (lt_irrefl _)
  | some e => exact ⟨e, rfl⟩

/-- The best hop of a router is itself, or a neighbour with a lower cost. -/
lemma nextHop1_cases (hinj : Function.Injective hash) (hnet : Settled hash G net) {e : RibEntry V}
    (he : (net r).entries.lookup (hash d) = some e) :
    r = d ∧ e.nextHop1 = hash r
    ∨ ∃ n, e.nextHop1 = hash n ∧ G.Adj r n ∧ lowest hash net d n < e.lowest1 := by
  have hlt := hnet.lowest1_lt he
  have hhop := (hnet.refreshed he).lookup_nextHop1 hlt
  obtain ⟨n, hn, hor⟩ := hnet.only he hhop hlt
  have hcost : (net r).cost hash d n = e.lowest1 := by
    rw [Rib.cost, he, Option.elim_some, RibEntry.cost, hn, hhop]
    exact min_eq_right hlt.le
  rcases hor with rfl | hadj
  · left
    rw [hnet.own, cost_start hinj] at hcost
    split_ifs at hcost with hd
    · exact ⟨hd.symm, hn.symm⟩
    · exact absurd hcost.symm hlt.ne
  · right
    refine ⟨n, hn.symm, hadj, ?_⟩
    rw [hnet.cost_of_adj hinj hadj] at hcost
    cases he' : (net n).entries.lookup (hash d) with
    | none =>
      rw [he'] at hcost
      exact absurd hcost.symm hlt.ne
    | some e' =>
      have habove := lt_advertised (net n) (hnet.refreshed he') (hnet.lowest1_lt he') r
      rw [he', Option.elim_some] at hcost
      rw [lowest_of_lookup he', ← hcost]
      exact lt_min (hnet.lowest1_lt he') habove

/-- The router behind the best hop. -/
noncomputable def nextHop (hash : V → ℕ) (net : V → Rib V) (d r : V) : V :=
  have : Nonempty V := ⟨d⟩
  Function.invFun hash (((net r).entries.lookup (hash d)).elim 0 RibEntry.nextHop1)

omit [DecidableEq V] in
lemma nextHop_of_lookup (hinj : Function.Injective hash) {e : RibEntry V}
    (he : (net r).entries.lookup (hash d) = some e) (hn : e.nextHop1 = hash n) :
    nextHop hash net d r = n := by
  have : Nonempty V := ⟨d⟩
  rw [nextHop, he, Option.elim_some, hn]
  exact Function.leftInverse_invFun hinj n

/-- The tables of a settled network are balanced. -/
lemma balanced (hinj : Function.Injective hash) (hnet : Settled hash G net) (d : V) :
    DistanceVector.Balanced G d costInfinity (lowest hash net d) (nextHop hash net d) where
  target := by
    have hle := hnet.lowest_le_cost d d d
    rw [hnet.own, cost_start hinj, if_pos rfl] at hle
    exact Nat.le_zero.mp hle
  down := by
    intro r hd hlt
    obtain ⟨e, he⟩ := lookup_of_lowest_lt hlt
    rcases hnet.nextHop1_cases hinj he with ⟨hr, -⟩ | ⟨n, hn, hadj, hlower⟩
    · exact absurd hr hd
    · rw [nextHop_of_lookup hinj he hn, lowest_of_lookup he]
      exact ⟨hadj, hlower⟩
  relax := by
    intro r n hd hadj hlt
    obtain ⟨e, he⟩ := lookup_of_lowest_lt (Nat.lt_of_succ_lt hlt)
    by_cases hhop : (net n).neighbors.lookup e.nextHop1 = some r
    · -- the neighbour sends through this router
      have hnext := (hnet.ok n).known hhop
      right
      refine ⟨?_, nextHop_of_lookup hinj he hnext.symm⟩
      rcases hnet.nextHop1_cases hinj he with ⟨-, hself⟩ | ⟨n', -, -, hlower⟩
      · rw [← hnext] at hself
        exact absurd (hinj hself) hadj.ne
      · rintro rfl
        have hle := hnet.lowest_le_cost n n n
        rw [hnet.own, cost_start hinj, if_pos rfl, lowest_of_lookup he] at hle
        omega
    · left
      have hle := hnet.lowest_le_cost r n d
      rw [hnet.cost_of_adj hinj hadj, he, Option.elim_some,
        advertised_eq (hnet.refreshed he) hhop] at hle
      rw [lowest_of_lookup he]
      exact hle.trans (min_le_right _ _)

end Settled

/-- A router sends to another for destination `d`. -/
def SendsTo (hash : V → ℕ) (net : V → Rib V) (d r n : V) : Prop :=
  r ≠ d ∧ ∃ e, (net r).entries.lookup (hash d) = some e ∧ e.nextHop1 = hash n

/-- **A settled network has shortest paths.**  A router has an entry for every destination that is
not `CostInfinity` away, the cost is the distance, and the next hop is a neighbour that is one step
nearer; so sending to next hops never comes back. -/
theorem settled_network_has_shortest_paths (hinj : Function.Injective hash)
    (hnet : Settled hash G net) (r d : V) :
    ((∃ e, (net r).entries.lookup (hash d) = some e) ↔ G.edist r d ≤ (costInfinity - 1 : ℕ))
    ∧ (∀ e, (net r).entries.lookup (hash d) = some e →
      (e.lowest1 : ℕ∞) = G.edist r d
      ∧ (r ≠ d → ∃ n, e.nextHop1 = hash n ∧ G.Adj r n ∧ G.edist n d + 1 = G.edist r d))
    ∧ ¬ Relation.TransGen (SendsTo hash net d) r r := by
  have hbal := hnet.balanced hinj d
  have hentry : ∀ {x e}, (net x).entries.lookup (hash d) = some e →
      Settled.lowest hash net d x < costInfinity := by
    intro x e he
    rw [Settled.lowest_of_lookup he]
    exact hnet.lowest1_lt he
  have hnext : ∀ {x e}, (net x).entries.lookup (hash d) = some e → x ≠ d →
      ∃ n, e.nextHop1 = hash n ∧ G.Adj x n ∧ G.edist n d + 1 = G.edist x d := by
    intro x e he hd
    have hstep := hbal.edist_hop hd (hentry he)
    rcases hnet.nextHop1_cases hinj he with ⟨hx, -⟩ | ⟨n, hn, hadj, -⟩
    · exact absurd hx hd
    · rw [Settled.nextHop_of_lookup hinj he hn] at hstep
      exact ⟨n, hn, hadj, hstep⟩
  refine ⟨?_, fun e he => ⟨?_, hnext he⟩, ?_⟩
  · have hlt : G.edist r d ≤ (costInfinity - 1 : ℕ) ↔ G.edist r d < costInfinity :=
      (ENat.lt_add_one_iff (ENat.natCast_ne_top _)).symm
    rw [hlt, ← hbal.cost_lt_iff]
    exact ⟨fun ⟨e, he⟩ => hentry he, Settled.lookup_of_lowest_lt⟩
  · rw [← hbal.cost_eq (hentry he), Settled.lowest_of_lookup he]
  · -- the lowest cost falls along the way
    have hdown : ∀ {x y}, SendsTo hash net d x y →
        Settled.lowest hash net d y < Settled.lowest hash net d x := by
      rintro x y ⟨hd, e, he, hy⟩
      rcases hnet.nextHop1_cases hinj he with ⟨hx, -⟩ | ⟨n, hn, -, hlower⟩
      · exact absurd hx hd
      · obtain rfl : n = y := hinj (hn.symm.trans hy)
        rwa [Settled.lowest_of_lookup he]
    have hfall : ∀ {x}, Relation.TransGen (SendsTo hash net d) r x →
        Settled.lowest hash net d x < Settled.lowest hash net d r := by
      intro x hway
      induction hway with
      | single hsends => exact hdown hsends
      | tail _ hsends ih => exact (hdown hsends).trans ih
    exact fun hloop => lt_irrefl _ (hfall hloop)

/-- Routers 0, 1 and 2 in a line, and router 3 apart. -/
def lineGraph : SimpleGraph (Fin 4) where
  Adj r n := r ≠ 3 ∧ n ≠ 3 ∧ (r.val + 1 = n.val ∨ n.val + 1 = r.val)
  symm := ⟨fun _ _ h => ⟨h.2.1, h.1, h.2.2.symm⟩⟩
  loopless := ⟨fun _ h => by omega⟩

instance : DecidableRel lineGraph.Adj := fun r n =>
  inferInstanceAs (Decidable (r ≠ 3 ∧ n ≠ 3 ∧ (r.val + 1 = n.val ∨ n.val + 1 = r.val)))

/-- The tables after some rounds in which every router has the advertisements of its neighbours. -/
def lineTables : ℕ → Fin 4 → Rib (Fin 4)
  | 0 => Rib.start Fin.val
  | k + 1 => fun r => ([0, 1, 2].filter fun n => lineGraph.Adj r n).foldl
      (fun rib n => (rib.updateRib Fin.val r n (lineTables k n).advert).1) (lineTables k r)

lemma settled_lineTables : Settled Fin.val lineGraph (lineTables 2) := by
  have hentries : ∀ r, ∀ e ∈ (lineTables 2 r).entries.entries,
      e.2.name.val = e.1 ∧ e.2.lowest = lowestOf e.2.costs.entries ∧ e.2.lowest1 ≠ costInfinity
      ∧ ∀ c ∈ e.2.costs.entries, c.2 < costInfinity →
        ∃ n : Fin 4, n.val = c.1 ∧ (n = r ∨ lineGraph.Adj r n) := by decide +kernel
  have hneighbors : ∀ r, ∀ e ∈ (lineTables 2 r).neighbors.entries, e.2.val = e.1 := by
    decide +kernel
  refine
    { ok := fun r => ⟨fun he => (hentries r _ (AList.mem_lookup_iff.mp he)).1,
        fun hn => hneighbors r _ (AList.mem_lookup_iff.mp hn)⟩
      own := by decide +kernel
      column := by decide +kernel
      only := fun he _ _ hc hlt =>
        (hentries _ _ (AList.mem_lookup_iff.mp he)).2.2.2 _ (AList.mem_lookup_iff.mp hc) hlt
      refreshed := fun he => ⟨_, .refl _, (hentries _ _ (AList.mem_lookup_iff.mp he)).2.1⟩
      pruned := fun he => (hentries _ _ (AList.mem_lookup_iff.mp he)).2.2.1 }

theorem settled_network_has_shortest_paths_line :
    (∃ e, (lineTables 2 0).entries.lookup 2 = some e ∧ e.lowest1 = 2 ∧ e.nextHop1 = 1)
    ∧ (lineTables 2 0).entries.lookup 3 = none
    ∧ lineGraph.edist 0 2 ≤ 15 ∧ ¬ lineGraph.edist 0 3 ≤ 15 := by
  have hmain := settled_network_has_shortest_paths Fin.val_injective settled_lineTables 0
  have hnone : (lineTables 2 0).entries.lookup 3 = none := by decide +kernel
  obtain ⟨e, he⟩ : ∃ e, (lineTables 2 0).entries.lookup 2 = some e :=
    Option.isSome_iff_exists.mp (by decide +kernel)
  refine ⟨⟨e, he, ?_⟩, hnone, (hmain 2).1.mp ⟨e, he⟩, fun hle => ?_⟩
  · have hboth : ((lineTables 2 0).entries.lookup 2).map (fun e => (e.lowest1, e.nextHop1))
        = some (2, 1) := by decide +kernel
    rw [he, Option.map_some, Option.some.injEq, Prod.mk.injEq] at hboth
    exact hboth
  · obtain ⟨e', he'⟩ := (hmain 3).1.mpr hle
    exact absurd (hnone.symm.trans he') (by simp)

end Mars.Dv
