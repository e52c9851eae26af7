import Mars.Lib.FinMap
import Mathlib.Data.List.Sort
import Mathlib.Data.Prod.Lex

/-!
The routing table of the distance-vector router.

* `RibEntry.refresh`: the two lowest costs of an entry, in whatever order the map is walked
  (`lowestOf_perm`); `seen_lowestOf` says what they are;
* `ranked`: the costs that are used, from the lowest; `refresh_finds_two_best`: `refresh` finds the
  first two of them;
* `Rib.set`, `Rib.dirtyResetNextHop`, `Rib.prune`, `Rib.advert` and `Rib.updateRib`;
* `Rib.cost`: the cost of a destination through a neighbour, which is all that a change of the table
  is about: `cost_set`, `cost_dirtyResetNextHop`, `cost_prune`;
* `cost_updateRib`: an advertisement replaces the neighbour's column and nothing else.
-/

namespace Mars.Dv

open List AList Option

/-! ### The table -/

/-- `CostInfinity`. -/
def costInfinity : ℕ := 16

/-- `RibEntry`. -/
structure RibEntry (V : Type*) where
  name : V
  costs : FinMap ℕ ℕ
  nextHop1 : ℕ := 0
  nextHop2 : ℕ := 0
  lowest1 : ℕ := 0
  lowest2 : ℕ := 0
  dirty : Bool := false

/-- `Rib`: destinations by hash, and neighbours by hash. -/
structure Rib (V : Type*) where
  entries : FinMap ℕ (RibEntry V)
  neighbors : FinMap ℕ V

/-- `AdvEntry`; the next hop is `none` where the name is nil. -/
structure AdvEntry (V : Type*) where
  destination : V
  nextHop : Option V
  cost : ℕ
  otherCost : ℕ

/-- The two best hops of a walk over the costs. -/
structure Lowest where
  lowest1 : ℕ
  nextHop1 : ℕ
  lowest2 : ℕ
  nextHop2 : ℕ
  deriving DecidableEq

variable (b : Lowest)

/-- The body of the loop in `refresh`. -/
def Lowest.add (hop cost : ℕ) : Lowest :=
  if cost < b.lowest1 ∨ cost = b.lowest1 ∧ hop < b.nextHop1 then
    ⟨cost, hop, b.lowest1, b.nextHop1⟩
  else if cost < b.lowest2 ∨ cost = b.lowest2 ∧ hop < b.nextHop2 then
    { b with
      lowest2 := cost
      nextHop2 := hop }
  else b

/-- The loop in `refresh`, over the costs in some order. -/
def lowestOf (costs : List (Σ _ : ℕ, ℕ)) : Lowest :=
  costs.foldl (fun b e => b.add e.1 e.2) ⟨costInfinity, 0, costInfinity, 0⟩

namespace RibEntry

variable {V : Type*}

variable (e : RibEntry V)

/-- `refresh`, and whether it changed anything. -/
def refresh : RibEntry V × Bool :=
  let b := lowestOf e.costs.entries
  ({ e with
      dirty := false
      lowest1 := b.lowest1
      lowest2 := b.lowest2
      nextHop1 := b.nextHop1
      nextHop2 := b.nextHop2 },
    e.lowest1 ≠ b.lowest1 ∨ e.lowest2 ≠ b.lowest2 ∨ e.nextHop1 ≠ b.nextHop1
      ∨ e.nextHop2 ≠ b.nextHop2)

/-- `RibEntry.Set`. -/
def set (nextHop cost : ℕ) : RibEntry V × Bool :=
  if e.costs.lookup nextHop ≠ some cost then
    { e with costs := e.costs.insert nextHop cost }.refresh
  else (e, false)

/-- The cost through a hop; what is not below `CostInfinity` is not used. -/
def cost (hop : ℕ) : ℕ := min costInfinity ((e.costs.lookup hop).getD costInfinity)

end RibEntry

/-- The cost to the neighbour. -/
def localCost : ℕ := 1

namespace AdvEntry

variable {V : Type*} [DecidableEq V]

/-- What `updateRib` makes of an advertised entry: the other cost, if the next hop is the router
itself. -/
def costFor (router : V) (entry : AdvEntry V) : ℕ :=
  if entry.nextHop = some router then
    if entry.otherCost < costInfinity then (entry.otherCost + localCost) % 2 ^ 64
    else costInfinity
  else (entry.cost + localCost) % 2 ^ 64

end AdvEntry

namespace Rib

variable {V : Type*} (hash : V → ℕ)

/-- `NewRib`. -/
def new : Rib V := ⟨∅, ∅⟩

/-- `Rib.Set`. -/
def set (r : Rib V) (destName nextHop : V) (cost : ℕ) : Rib V × Bool :=
  let entry := (r.entries.lookup (hash destName)).getD { name := destName, costs := ∅ }
  let neighbors := if hash nextHop ∈ r.neighbors then r.neighbors
    else r.neighbors.insert (hash nextHop) nextHop
  let (entry, dirty) := entry.set (hash nextHop) cost
  (⟨r.entries.insert (hash destName) entry, neighbors⟩, dirty)

/-- `DirtyResetNextHop`. -/
def dirtyResetNextHop (r : Rib V) (nextHop : V) : Rib V :=
  { r with
    entries := r.entries.mapVals fun _ e =>
      { e with
        costs := e.costs.insert (hash nextHop) costInfinity
        dirty := true } }

/-- The body of the loop in `Prune`; an entry that has been deleted is not visited. -/
def pruneEntry (st : Rib V × Bool) (key : ℕ) : Rib V × Bool :=
  match st.1.entries.lookup key with
  | none => st
  | some entry =>
    let (entry, changed) := if entry.dirty then entry.refresh else (entry, false)
    let entries := st.1.entries.insert key entry
    if entry.lowest1 = costInfinity then
      ({ st.1 with entries := entries.erase (hash entry.name) }, true)
    else ({ st.1 with entries }, changed || st.2)

/-- `Prune`. -/
def prune (r : Rib V) : Rib V × Bool := r.entries.keys.foldl (pruneEntry hash) (r, false)

/-- `Advert`. -/
def advert (r : Rib V) : List (AdvEntry V) :=
  r.entries.entries.map fun e =>
    ⟨e.2.name, r.neighbors.lookup e.2.nextHop1, e.2.lowest1, e.2.lowest2⟩

/-- The body of the loop in `updateRib`. -/
def updateEntry [DecidableEq V] (router neighbor : V) (st : Rib V × Bool)
    (entry : AdvEntry V) : Rib V × Bool :=
  if costInfinity ≤ entry.costFor router then st
  else
    let (rib, changed) := st.1.set hash entry.destination neighbor (entry.costFor router)
    (rib, changed || st.2)

/-- `updateRib`, and whether the advertisement might change. -/
def updateRib [DecidableEq V] (router neighbor : V) (advert : List (AdvEntry V)) (r : Rib V) :
    Rib V × Bool :=
  let (rib, dirty) :=
    advert.foldl (updateEntry hash router neighbor) (r.dirtyResetNextHop hash neighbor, false)
  let (rib, pruned) := rib.prune hash
  (rib, pruned || dirty)

/-- The cost of a destination through a neighbour. -/
def cost (r : Rib V) (dest hop : V) : ℕ :=
  (r.entries.lookup (hash dest)).elim costInfinity fun e => e.cost (hash hop)

end Rib

/-! ### The lowest costs -/

lemma Lowest.add_right_comm {hop cost hop' cost' : ℕ} :
    (b.add hop cost).add hop' cost' = (b.add hop' cost').add hop cost := by
  simp only [Lowest.add]
  grind

variable {costs : List (Σ _ : ℕ, ℕ)}

/-- The order of the walk does not matter. -/
lemma lowestOf_perm {costs' : List (Σ _ : ℕ, ℕ)} (hperm : costs.Perm costs') :
    lowestOf costs = lowestOf costs' := by
  have : RightCommutative fun (b : Lowest) (e : Σ _ : ℕ, ℕ) => b.add e.1 e.2 :=
    ⟨fun b e e' => b.add_right_comm⟩
  exact hperm.foldl_eq _

/-- The first two elements of a sorted list, after another one is inserted. -/
lemma getD_orderedInsert {α : Type*} [LinearOrder α] {l : List α} {top x : α}
    (hlt : ∀ y ∈ l, y < top) (hsorted : l.Pairwise (· ≤ ·)) (hx : x < top) :
    ((l.orderedInsert (· ≤ ·) x).getD 0 top, (l.orderedInsert (· ≤ ·) x).getD 1 top)
      = if x < l.getD 0 top then (x, l.getD 0 top)
        else if x < l.getD 1 top then (l.getD 0 top, x) else (l.getD 0 top, l.getD 1 top) := by
  rcases l with - | ⟨a, - | ⟨b, l⟩⟩
  · simp [hx]
  all_goals
    simp only [orderedInsert]
    grind

/-- The costs below `CostInfinity` with their hops, from the lowest. -/
def ranked (costs : List (Σ _ : ℕ, ℕ)) : List (ℕ ×ₗ ℕ) :=
  ((costs.filter fun e => e.2 < costInfinity).map fun e => toLex (e.2, e.1)).insertionSort (· ≤ ·)

/-- The cost and the hop for one that is missing. -/
def noHop : ℕ ×ₗ ℕ := toLex (costInfinity, 0)

/-- The two costs with their hops. -/
def Lowest.hops : (ℕ ×ₗ ℕ) × (ℕ ×ₗ ℕ) :=
  (toLex (b.lowest1, b.nextHop1), toLex (b.lowest2, b.nextHop2))

lemma lt_noHop {cost hop : ℕ} : toLex (cost, hop) < noHop ↔ cost < costInfinity := by
  simp [noHop, Prod.Lex.toLex_lt_toLex]

lemma lt_noHop_of_mem {x : ℕ ×ₗ ℕ} (hx : x ∈ ranked costs) : x < noHop := by
  obtain ⟨e, he, rfl⟩ := mem_map.mp ((mem_insertionSort _).mp hx)
  exact lt_noHop.mpr (of_decide_eq_true (mem_filter.mp he).2)

lemma getD_ranked_le (i : ℕ) : (ranked costs).getD i noHop ≤ noHop := by
  rw [getD_eq_getElem?_getD]
  cases hget : (ranked costs)[i]? with
  | none => exact le_rfl
  | some x => exact (lt_noHop_of_mem (mem_of_getElem? hget)).le

lemma Lowest.hops_add (e : Σ _ : ℕ, ℕ) :
    (b.add e.1 e.2).hops = if toLex (e.2, e.1) < b.hops.1 then (toLex (e.2, e.1), b.hops.1)
      else if toLex (e.2, e.1) < b.hops.2 then (b.hops.1, toLex (e.2, e.1)) else b.hops := by
  simp only [Lowest.add, Lowest.hops, Prod.Lex.toLex_lt_toLex]
  split_ifs <;> rfl

/-- A walk finds the first two of the ranking. -/
lemma hops_lowestOf (costs : List (Σ _ : ℕ, ℕ)) :
    (lowestOf costs).hops = ((ranked costs).getD 0 noHop, (ranked costs).getD 1 noHop) := by
  induction costs with
  | nil => rfl
  | cons e costs ih =>
    have hlast : lowestOf (e :: costs) = (lowestOf costs).add e.1 e.2 := by
      rw [lowestOf_perm (perm_append_singleton e costs).symm, lowestOf, foldl_append]
      rfl
    rw [hlast, Lowest.hops_add, ih]
    by_cases hlt : e.2 < costInfinity
    · have hnext : ranked (e :: costs)
          = (ranked costs).orderedInsert (· ≤ ·) (toLex (e.2, e.1)) := by
        simp [ranked, hlt]
      rw [hnext, getD_orderedInsert (fun x hx => lt_noHop_of_mem hx)
        (pairwise_insertionSort _ _) (lt_noHop.mpr hlt)]
    · -- a cost that is not used is not below what is there
      have hsame : ranked (e :: costs) = ranked costs := by
        simp [ranked, hlt]
      have hout : ∀ i, ¬ toLex (e.2, e.1) < (ranked costs).getD i noHop :=
        fun i h => hlt (lt_noHop.mp (h.trans_le (getD_ranked_le i)))
      rw [hsame, if_neg (hout 0), if_neg (hout 1)]

/-- What a walk over the costs has seen. -/
structure Lowest.Seen (costs : List (Σ _ : ℕ, ℕ)) (b : Lowest) : Prop where
  le : ∀ e ∈ costs, b.lowest1 ≤ e.2
  le_lowest2 : b.lowest1 ≤ b.lowest2
  le_infinity : b.lowest2 ≤ costInfinity
  mem : b.lowest1 < costInfinity → ⟨b.nextHop1, b.lowest1⟩ ∈ costs

lemma Lowest.Seen.add {b : Lowest} (h : b.Seen costs) {e : Σ _ : ℕ, ℕ} :
    (b.add e.1 e.2).Seen (costs ++ [e]) := by
  have hle := h.le_lowest2
  have hinf := h.le_infinity
  rw [Lowest.add]
  split_ifs with hfirst hsecond
  · refine ⟨fun e' he' => ?_, ?_, ?_, fun _ => mem_append_right _ (mem_singleton.mpr rfl)⟩
    · rcases mem_append.mp he' with he' | he'
      · have := h.le e' he'
        dsimp only
        omega
      · rw [mem_singleton.mp he']
    · dsimp only
      omega
    · dsimp only
      omega
  · refine ⟨fun e' he' => ?_, ?_, ?_, fun hlt => mem_append_left _ (h.mem hlt)⟩
    · rcases mem_append.mp he' with he' | he'
      · exact h.le e' he'
      · rw [mem_singleton.mp he']
        dsimp only
        omega
    · dsimp only
      omega
    · dsimp only
      omega
  · refine ⟨fun e' he' => ?_, hle, hinf, fun hlt => mem_append_left _ (h.mem hlt)⟩
    rcases mem_append.mp he' with he' | he'
    · exact h.le e' he'
    · rw [mem_singleton.mp he']
      omega

lemma seen_lowestOf : (lowestOf costs).Seen costs := by
  induction costs using reverseRecOn with
  | nil => exact ⟨by simp, le_rfl, le_rfl, fun hlt => absurd hlt (lt_irrefl _)⟩
  | append_singleton costs e ih =>
    rw [lowestOf, foldl_append]
    exact ih.add

/-! ### Entries -/

namespace RibEntry

variable {V : Type*} {e : RibEntry V} {hop : ℕ}

/-- What `refresh` last found. -/
def lowest (e : RibEntry V) : Lowest := ⟨e.lowest1, e.nextHop1, e.lowest2, e.nextHop2⟩

/-- **`refresh` finds the two best next hops**, in whatever order it walks over the costs, and says
whether one of the four values has changed. -/
theorem refresh_finds_two_best (e : RibEntry V) (order : List (Σ _ : ℕ, ℕ))
    (horder : order.Perm e.costs.entries) :
    e.refresh.1.lowest = lowestOf order
      ∧ e.refresh.1.lowest.hops
        = ((ranked e.costs.entries).getD 0 noHop, (ranked e.costs.entries).getD 1 noHop)
      ∧ (e.refresh.2 = true ↔ e.refresh.1.lowest ≠ e.lowest) := by
  refine ⟨(lowestOf_perm horder).symm, hops_lowestOf _, ?_⟩
  simp only [refresh, lowest, decide_eq_true_eq, ne_eq, Lowest.mk.injEq]
  grind

theorem refresh_finds_two_best_tie :
    let costs : FinMap ℕ ℕ := ((∅ : FinMap ℕ ℕ).insert 9 16 |>.insert 7 3).insert 5 3
    let e : RibEntry ℕ := ⟨0, costs, 0, 0, 0, 0, true⟩
    e.refresh.1.lowest = lowestOf [⟨7, 3⟩, ⟨9, 16⟩, ⟨5, 3⟩]
      ∧ e.refresh.1.lowest.hops
        = ((ranked e.costs.entries).getD 0 noHop, (ranked e.costs.entries).getD 1 noHop)
      ∧ (e.refresh.2 = true ↔ e.refresh.1.lowest ≠ e.lowest) :=
  refresh_finds_two_best _ _ (by decide)

/-- The entry is refreshed, in some order of the walk. -/
def Refreshed (e : RibEntry V) : Prop :=
  ∃ order, order.Perm e.costs.entries ∧ e.lowest = lowestOf order

lemma refreshed_refresh (e : RibEntry V) : e.refresh.1.Refreshed := ⟨_, .refl _, rfl⟩

lemma Refreshed.seen (h : e.Refreshed) : e.lowest.Seen e.costs.entries := by
  obtain ⟨order, hperm, hlowest⟩ := h
  rw [hlowest, lowestOf_perm hperm]
  exact seen_lowestOf

lemma Refreshed.lowest1_le_infinity (h : e.Refreshed) : e.lowest1 ≤ costInfinity :=
  le_trans h.seen.le_lowest2 h.seen.le_infinity

lemma Refreshed.lowest1_le (h : e.Refreshed) : e.lowest1 ≤ e.cost hop := by
  refine le_min h.lowest1_le_infinity ?_
  cases hlookup : e.costs.lookup hop with
  | none => exact h.lowest1_le_infinity
  | some c => exact h.seen.le _ (mem_lookup_iff.mp hlookup)

lemma Refreshed.lookup_nextHop1 (h : e.Refreshed) (hlt : e.lowest1 < costInfinity) :
    e.costs.lookup e.nextHop1 = some e.lowest1 :=
  mem_lookup_iff.mpr (h.seen.mem hlt)

lemma set_name (e : RibEntry V) {cost : ℕ} : (e.set hop cost).1.name = e.name := by
  rw [set]
  split_ifs <;> rfl

lemma cost_set (e : RibEntry V) {cost hop' : ℕ} :
    (e.set hop cost).1.cost hop' = if hop' = hop then min costInfinity cost else e.cost hop' := by
  rw [set]
  split_ifs with hknown hhop hhop
  · rw [RibEntry.cost]
    dsimp only [refresh]
    rw [lookup_insert_eq, if_pos hhop]
    rfl
  · rw [RibEntry.cost]
    dsimp only [refresh]
    rw [lookup_insert_eq, if_neg hhop]
    rfl
  · rw [RibEntry.cost, hhop, not_not.mp hknown]
    rfl
  · rfl

/-- A change of a cost refreshes the entry. -/
lemma refreshed_set {cost : ℕ} (h : e.costs.lookup hop ≠ some cost ∨ e.dirty = true ∨ e.Refreshed) :
    (e.set hop cost).1.dirty = true ∨ (e.set hop cost).1.Refreshed := by
  rw [set]
  split_ifs with hknown
  · exact .inr (refreshed_refresh _)
  · exact h.resolve_left (not_not.mpr (not_not.mp hknown))

/-- The entry as `Prune` leaves it, if it does. -/
def pruned (e : RibEntry V) : Option (RibEntry V) :=
  let e := if e.dirty then e.refresh.1 else e
  if e.lowest1 = costInfinity then none else some e

lemma name_of_mem_pruned {e' : RibEntry V} (he' : e' ∈ e.pruned) : e'.name = e.name := by
  rw [pruned, mem_def] at he'
  split_ifs at he' <;> cases he' <;> rfl

lemma of_mem_pruned (h : e.dirty = true ∨ e.Refreshed) {e' : RibEntry V} (he' : e' ∈ e.pruned) :
    e'.costs = e.costs ∧ e'.Refreshed ∧ e'.lowest1 ≠ costInfinity := by
  rw [pruned, mem_def] at he'
  split_ifs at he' with hdirty hinf hinf
  · cases he'
    exact ⟨rfl, refreshed_refresh _, hinf⟩
  · cases he'
    exact ⟨rfl, h.resolve_left hdirty, hinf⟩

/-- An entry that is pruned has no cost below infinity. -/
lemma cost_of_pruned (h : e.dirty = true ∨ e.Refreshed) (hnone : e.pruned = none) :
    e.cost hop = costInfinity := by
  refine le_antisymm (min_le_left _ _) ?_
  rw [pruned] at hnone
  split_ifs at hnone with hdirty hinf hinf
  · rw [← hinf]
    exact (refreshed_refresh e).lowest1_le
  · rw [← hinf]
    exact (h.resolve_left hdirty).lowest1_le

end RibEntry

/-! ### The steps of an update -/

namespace Rib

variable {V : Type*} {hash : V → ℕ} {r : Rib V} {key : ℕ} {hop : V}

/-- Entries and neighbours are under the hash of their names. -/
structure Ok (hash : V → ℕ) (r : Rib V) : Prop where
  named : ∀ {key e}, r.entries.lookup key = some e → hash e.name = key
  known : ∀ {key n}, r.neighbors.lookup key = some n → hash n = key

/-- Every entry is refreshed, or is going to be. -/
def Kept (r : Rib V) : Prop :=
  ∀ {key e}, r.entries.lookup key = some e → e.dirty = true ∨ e.Refreshed

lemma lookup_set (r : Rib V) {destName nextHop : V} {cost : ℕ} :
    (r.set hash destName nextHop cost).1.entries.lookup key
      = if key = hash destName then
          some ((r.entries.lookup (hash destName)).getD { name := destName, costs := ∅ }
            |>.set (hash nextHop) cost).1
        else r.entries.lookup key :=
  lookup_insert_eq

lemma cost_set [DecidableEq V] (hinj : Function.Injective hash) (r : Rib V) {dest hop : V} {c : ℕ}
    {dest' hop' : V} :
    (r.set hash dest hop c).1.cost hash dest' hop'
      = if dest' = dest ∧ hop' = hop then min costInfinity c else r.cost hash dest' hop' := by
  rw [cost, lookup_set, cost]
  by_cases hdest : dest' = dest
  · rw [if_pos (congrArg hash hdest), hdest]
    simp only [elim_some, RibEntry.cost_set, hinj.eq_iff, true_and]
    split_ifs
    · rfl
    · cases r.entries.lookup (hash dest) <;> rfl
  · rw [if_neg fun h => hdest (hinj h), if_neg fun h => hdest h.1]

lemma cost_dirtyResetNextHop [DecidableEq V] (hinj : Function.Injective hash) (r : Rib V)
    {hop dest' hop' : V} :
    (r.dirtyResetNextHop hash hop).cost hash dest' hop'
      = if hop' = hop then costInfinity else r.cost hash dest' hop' := by
  simp only [cost, dirtyResetNextHop, lookup_mapVals]
  cases r.entries.lookup (hash dest') with
  | none => simp
  | some e =>
    simp only [map_some, elim_some, RibEntry.cost, lookup_insert_eq,
      hinj.eq_iff]
    split_ifs <;> rfl

lemma ok_set (hok : r.Ok hash) {dest : V} {c : ℕ} : (r.set hash dest hop c).1.Ok hash := by
  constructor
  · intro key e hlookup
    rw [lookup_set] at hlookup
    split_ifs at hlookup with hkey
    · cases hlookup
      rw [RibEntry.set_name, hkey]
      cases hold : r.entries.lookup (hash dest) with
      | none => rfl
      | some e => exact hok.named hold
    · exact hok.named hlookup
  · intro key n hlookup
    rw [set] at hlookup
    dsimp only at hlookup
    split_ifs at hlookup with hknown
    · exact hok.known hlookup
    · rw [lookup_insert_eq] at hlookup
      split_ifs at hlookup with hkey
      · cases hlookup
        exact hkey.symm
      · exact hok.known hlookup

lemma kept_set (hkept : r.Kept) {dest : V} {c : ℕ} : (r.set hash dest hop c).1.Kept := by
  intro key e hlookup
  rw [lookup_set] at hlookup
  split_ifs at hlookup
  · cases hlookup
    refine RibEntry.refreshed_set ?_
    cases hold : r.entries.lookup (hash dest) with
    | none => exact .inl (by simp)
    | some e => exact .inr (hkept hold)
  · exact hkept hlookup

lemma ok_dirtyResetNextHop (hok : r.Ok hash) : (r.dirtyResetNextHop hash hop).Ok hash := by
  refine ⟨fun {key e} hlookup => ?_, hok.known⟩
  rw [dirtyResetNextHop, lookup_mapVals, map_eq_some_iff] at hlookup
  obtain ⟨e, hold, rfl⟩ := hlookup
  have hname := hok.named hold
  exact hname

lemma kept_dirtyResetNextHop (r : Rib V) : (r.dirtyResetNextHop hash hop).Kept := by
  intro key e hlookup
  rw [dirtyResetNextHop, lookup_mapVals, map_eq_some_iff] at hlookup
  obtain ⟨e, -, rfl⟩ := hlookup
  exact .inl rfl

/-! ### Pruning -/

variable {st : Rib V × Bool}

lemma pruneEntry_neighbors : (pruneEntry hash st key).1.neighbors = st.1.neighbors := by
  rw [pruneEntry]
  cases st.1.entries.lookup key with
  | none => rfl
  | some e =>
    dsimp only
    split_ifs <;> rfl

lemma lookup_pruneEntry (hok : st.1.Ok hash) {key' : ℕ} :
    (pruneEntry hash st key).1.entries.lookup key'
      = if key' = key then (st.1.entries.lookup key).bind RibEntry.pruned
        else st.1.entries.lookup key' := by
  rw [pruneEntry]
  cases hlookup : st.1.entries.lookup key with
  | none =>
    split_ifs with hkey
    · rw [hkey, hlookup]
      rfl
    · rfl
  | some e =>
    have hname := hok.named hlookup
    simp only [bind_some, RibEntry.pruned]
    have hfst : (if e.dirty = true then e.refresh else (e, false)).1
        = if e.dirty = true then e.refresh.1 else e := by
      split_ifs <;> rfl
    have hname' : hash (if e.dirty = true then e.refresh.1 else e).name = key := by
      split_ifs <;> exact hname
    rw [hfst]
    split_ifs <;> simp_all [lookup_insert_eq, lookup_erase_eq]

lemma ok_pruneEntry (hok : st.1.Ok hash) : (pruneEntry hash st key).1.Ok hash := by
  refine ⟨fun {key' e} hlookup => ?_, ?_⟩
  · rw [lookup_pruneEntry hok] at hlookup
    split_ifs at hlookup with hkey
    · obtain ⟨e', hold, he⟩ := bind_eq_some_iff.mp hlookup
      rw [RibEntry.name_of_mem_pruned he, hok.named hold, hkey]
    · exact hok.named hlookup
  · rw [pruneEntry_neighbors]
    exact hok.known

/-- The loop visits every entry once. -/
lemma foldl_pruneEntry {keys : List ℕ} (hnodup : keys.Nodup) :
    ∀ {st : Rib V × Bool}, st.1.Ok hash →
      (keys.foldl (pruneEntry hash) st).1.Ok hash
      ∧ ∀ key, (keys.foldl (pruneEntry hash) st).1.entries.lookup key
        = if key ∈ keys then (st.1.entries.lookup key).bind RibEntry.pruned
          else st.1.entries.lookup key := by
  induction keys with
  | nil => exact fun hok => ⟨hok, fun key => rfl⟩
  | cons k keys ih =>
    intro st hok
    obtain ⟨hfresh, hnodup⟩ := nodup_cons.mp hnodup
    obtain ⟨hok', hlookup⟩ := ih hnodup (ok_pruneEntry hok)
    refine ⟨hok', fun key => ?_⟩
    rw [foldl_cons, hlookup, lookup_pruneEntry hok]
    by_cases hkey : key = k
    · subst hkey
      simp [hfresh]
    · simp [hkey]

lemma lookup_prune (hok : r.Ok hash) :
    (r.prune hash).1.entries.lookup key = (r.entries.lookup key).bind RibEntry.pruned := by
  rw [prune, (foldl_pruneEntry (keys_nodup _) hok).2]
  split_ifs with hkey
  · rfl
  · rw [lookup_eq_none.mpr hkey]
    rfl

lemma cost_prune (hok : r.Ok hash) (hkept : r.Kept) {dest : V} :
    (r.prune hash).1.cost hash dest hop = r.cost hash dest hop := by
  rw [cost, lookup_prune hok, cost]
  cases hold : r.entries.lookup (hash dest) with
  | none => rfl
  | some e =>
    rw [bind_some]
    cases hpruned : e.pruned with
    | none => exact (RibEntry.cost_of_pruned (hkept hold) hpruned).symm
    | some e' =>
      have hcosts := (RibEntry.of_mem_pruned (hkept hold) hpruned).1
      simp only [elim_some, RibEntry.cost, hcosts]

/-! ### Updates -/

section Update

variable [DecidableEq V] {router neighbor : V}

/-- The costs that an advertisement has for a destination, and that are used. -/
def written (router dest : V) (advert : List (AdvEntry V)) : List ℕ :=
  advert.filterMap fun entry =>
    if entry.destination = dest then
      if costInfinity ≤ entry.costFor router then none else some (entry.costFor router)
    else none

variable {entry : AdvEntry V} {advert : List (AdvEntry V)}

lemma written_cons_of_unused {dest : V}
    (h : entry.destination ≠ dest ∨ costInfinity ≤ entry.costFor router) :
    written router dest (entry :: advert) = written router dest advert := by
  rcases h with h | h <;> simp [written, h]

lemma written_cons_of_used (h : entry.costFor router < costInfinity) :
    written router entry.destination (entry :: advert)
      = entry.costFor router :: written router entry.destination advert := by
  simp [written, h]

lemma ok_updateEntry (hok : st.1.Ok hash) :
    (updateEntry hash router neighbor st entry).1.Ok hash := by
  rw [updateEntry]
  split_ifs
  · exact hok
  · exact ok_set hok

lemma kept_updateEntry (hkept : st.1.Kept) :
    (updateEntry hash router neighbor st entry).1.Kept := by
  rw [updateEntry]
  split_ifs
  · exact hkept
  · exact kept_set hkept

lemma kept_foldl_updateEntry (hok : r.Ok hash) :
    let st := advert.foldl (updateEntry hash router neighbor)
      (r.dirtyResetNextHop hash neighbor, false)
    st.1.Ok hash ∧ st.1.Kept := by
  refine foldlRecOn (motive := fun st : Rib V × Bool => st.1.Ok hash ∧ st.1.Kept) advert _ ?_
    fun st hst entry _ => ?_
  · exact ⟨ok_dirtyResetNextHop hok, kept_dirtyResetNextHop r⟩
  · exact ⟨ok_updateEntry hst.1, kept_updateEntry hst.2⟩

section

variable (hinj : Function.Injective hash)
include hinj

/-- Of several costs for one destination the last is kept. -/
lemma cost_foldl_updateEntry {dest : V} : ∀ st : Rib V × Bool,
      (advert.foldl (updateEntry hash router neighbor) st).1.cost hash dest hop
        = if hop = neighbor then
            (written router dest advert).getLast?.getD (st.1.cost hash dest neighbor)
          else st.1.cost hash dest hop := by
  induction advert with
  | nil =>
    intro st
    split_ifs with hhop
    · rw [hhop]
      rfl
    · rfl
  | cons entry advert ih =>
    intro st
    rw [foldl_cons, ih, updateEntry]
    by_cases hinf : costInfinity ≤ entry.costFor router
    · rw [if_pos hinf, written_cons_of_unused (.inr hinf)]
    · have hmin : min costInfinity (entry.costFor router) = entry.costFor router :=
        min_eq_right (Nat.le_of_not_le hinf)
      simp only [if_neg hinf, cost_set hinj, hmin]
      by_cases hdest : dest = entry.destination
      · subst hdest
        rw [written_cons_of_used (not_le.mp hinf), getLast?_cons]
        by_cases hhop : hop = neighbor <;> simp [hhop]
      · rw [written_cons_of_unused (.inl (Ne.symm hdest))]
        simp [hdest]

/-- **An advertisement replaces the neighbour's column.** -/
lemma cost_updateRib (hok : r.Ok hash) {dest : V} :
    (r.updateRib hash router neighbor advert).1.cost hash dest hop
      = if hop = neighbor then (written router dest advert).getLast?.getD costInfinity
        else r.cost hash dest hop := by
  obtain ⟨hok', hkept⟩ := kept_foldl_updateEntry hok
  change (prune hash _).1.cost hash dest hop = _
  rw [cost_prune hok' hkept, cost_foldl_updateEntry hinj, cost_dirtyResetNextHop hinj,
    cost_dirtyResetNextHop hinj, if_pos rfl]
  split_ifs <;> rfl

/-- What a table writes into the column of its neighbour. -/
lemma written_advert (hok : r.Ok hash) {dest : V} :
    written router dest r.advert
      = ((r.entries.lookup (hash dest)).bind fun e =>
          let c := AdvEntry.costFor router
            ⟨e.name, r.neighbors.lookup e.nextHop1, e.lowest1, e.lowest2⟩
          if costInfinity ≤ c then none else some c).toList := by
  rw [← filterMap_entries, written, advert, filterMap_map]
  refine filterMap_congr fun e he => ?_
  have hname := hok.named (mem_lookup_iff.mpr he)
  dsimp only [Function.comp]
  by_cases hdest : e.2.name = dest
  · have hkey : e.1 = hash dest := by rw [← hname, hdest]
    rw [if_pos hdest, if_pos hkey]
  · rw [if_neg hdest, if_neg fun hkey => hdest (hinj (hname.trans hkey))]

end

end Update

end Rib

end Mars.Dv
