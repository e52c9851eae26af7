import Mars.Basic
import Mars.Lib.LongestPrefix
import Mars.Lib.Trie

/-!
The FIB-strategy table, and the tree that implements it.

* `FibSpec`: what the table is for, a set of nexthops and a strategy for every name, looked up by
  the longest prefix that has one;
* `FibStrategyTree`: the tree; its `pruneIfEmpty` walks up to the root, but removes one entry at
  most (`pruneIfEmpty_cases`);
* `Holds`: the nexthops and strategies that the entries of a tree have; every operation changes
  those of one name, and the lookups find the longest prefix;
* `tree_refines`: so the tree is a table of the specification.
-/

namespace Mars

open Function LongestPrefix List

/-! ### Nexthops -/

/-- `InsertNextHop` on the nexthops of an entry: the cost of a face that is there is changed, or
the face is appended. -/
def insertHop (nexthop : Face) (cost : ℕ) : List FibNextHopEntry → List FibNextHopEntry
  | [] => [⟨nexthop, cost⟩]
  | nh :: hops =>
    if nh.nexthop = nexthop then ⟨nexthop, cost⟩ :: hops
    else nh :: insertHop nexthop cost hops

/-- A list has the nexthops of a set, each face once. -/
structure Lists (hops : List FibNextHopEntry) (s : Finset FibNextHopEntry) : Prop where
  faces : (hops.map (·.nexthop)).Nodup
  mem : ∀ nh, nh ∈ hops ↔ nh ∈ s

variable {hops hops' : List FibNextHopEntry} {s : Finset FibNextHopEntry} {face : Face} {cost : ℕ}
  {nh : FibNextHopEntry}

lemma lists_nil : Lists [] ∅ := ⟨nodup_nil, fun _ => by simp⟩

lemma Lists.toFinset (h : Lists hops s) : hops.toFinset = s :=
  Finset.ext fun nh => by rw [mem_toFinset, h.mem]

lemma Lists.nil_iff (h : Lists hops s) : hops = [] ↔ s = ∅ := by
  rw [← h.toFinset, toFinset_eq_empty_iff]

/-- The face is new, or its nexthop is replaced where it is. -/
lemma insertHop_cases (face : Face) (cost : ℕ) (hops : List FibNextHopEntry) :
    (∀ nh ∈ hops, nh.nexthop ≠ face) ∧ insertHop face cost hops = hops ++ [⟨face, cost⟩]
      ∨ ∃ as nh bs, hops = as ++ nh :: bs ∧ nh.nexthop = face
        ∧ insertHop face cost hops = as ++ ⟨face, cost⟩ :: bs := by
  induction hops with
  | nil => exact .inl ⟨by simp, rfl⟩
  | cons hd hops ih =>
    by_cases hface : hd.nexthop = face
    · exact .inr ⟨[], hd, hops, rfl, hface, if_pos hface⟩
    · rw [insertHop, if_neg hface]
      rcases ih with ⟨hnew, heq⟩ | ⟨as, nh, bs, rfl, hnh, heq⟩
      · exact .inl ⟨by simpa [hface] using hnew, by rw [heq]; rfl⟩
      · exact .inr ⟨hd :: as, nh, bs, rfl, hnh, by rw [heq]; rfl⟩

lemma insertHop_ne_nil : insertHop face cost hops ≠ [] := by
  rcases insertHop_cases face cost hops with ⟨-, heq⟩ | ⟨as, -, bs, -, -, heq⟩ <;> simp [heq]

/-- The nexthops with another face than one of them are the others. -/
lemma mem_other_faces {as bs : List FibNextHopEntry} {old : FibNextHopEntry}
    (h : ((as ++ old :: bs).map (·.nexthop)).Nodup) :
    nh ∈ as ++ old :: bs ∧ nh.nexthop ≠ old.nexthop ↔ nh ∈ as ++ bs := by
  rw [(perm_middle.map _).nodup_iff, map_cons, nodup_cons] at h
  have hother : nh ∈ as ++ bs → nh.nexthop ≠ old.nexthop := fun hin heq =>
    h.1 (mem_map.mpr ⟨nh, hin, heq⟩)
  rw [perm_middle.mem_iff, mem_cons]
  refine ⟨fun ⟨hin, hne⟩ => hin.resolve_left fun heq => hne (heq ▸ rfl), fun hin => ?_⟩
  exact ⟨.inr hin, hother hin⟩

lemma mem_insertHop (h : (hops.map (·.nexthop)).Nodup) :
    nh ∈ insertHop face cost hops ↔ nh = ⟨face, cost⟩ ∨ nh ∈ hops ∧ nh.nexthop ≠ face := by
  rcases insertHop_cases face cost hops with ⟨hnew, heq⟩ | ⟨as, old, bs, rfl, rfl, heq⟩
  · rw [heq, mem_append, mem_singleton, or_comm, and_iff_left_of_imp (hnew nh)]
  · rw [heq, mem_other_faces h, perm_middle.mem_iff, mem_cons]

lemma Lists.insertHop (h : Lists hops s) :
    Lists (insertHop face cost hops) (insert ⟨face, cost⟩ (s.filter (·.nexthop ≠ face))) where
  faces := by
    rcases insertHop_cases face cost hops with ⟨hnew, heq⟩ | ⟨as, old, bs, rfl, rfl, heq⟩
    · rw [heq, map_append]
      exact concat_eq_append ▸ h.faces.concat (by simpa using hnew)
    · rw [heq]
      simpa using h.faces
  mem := fun nh => by
    rw [mem_insertHop h.faces, Finset.mem_insert, Finset.mem_filter, h.mem]

lemma mem_eraseP_face (h : (hops.map (·.nexthop)).Nodup) :
    nh ∈ hops.eraseP (·.nexthop = face) ↔ nh ∈ hops ∧ nh.nexthop ≠ face := by
  by_cases hface : ∃ old ∈ hops, old.nexthop = face
  · obtain ⟨old, hold, rfl⟩ := hface
    obtain ⟨old', as, bs, -, heq, rfl, herase⟩ :=
      exists_of_eraseP (p := (·.nexthop = old.nexthop)) hold (decide_eq_true rfl)
    rw [herase, ← of_decide_eq_true heq, mem_other_faces h]
  · push Not at hface
    rw [eraseP_of_forall_not (by simpa using hface), and_iff_left_of_imp (hface nh)]

/-- The nexthop of a face is taken out, whatever the order of the others is then. -/
lemma Lists.erase (h : Lists hops s) (hperm : hops'.Perm (hops.eraseP (·.nexthop = face))) :
    Lists hops' (s.filter (·.nexthop ≠ face)) where
  faces := by
    rw [(hperm.map _).nodup_iff]
    exact h.faces.sublist (eraseP_sublist.map _)
  mem := fun nh => by
    rw [hperm.mem_iff, Finset.mem_filter, ← h.mem, mem_eraseP_face h.faces]

/-! ### The specification -/

variable {κ : Type*} [DecidableEq κ]

/-- An operation on the table; the names are not nil. -/
inductive FibOp (κ : Type*) where
  | insertNextHop (name : List κ) (nexthop : Face) (cost : ℕ)
  | clearNextHops (name : List κ)
  | removeNextHop (name : List κ) (nexthop : Face)
  | setStrategy (name strategy : List κ)
  | unSetStrategy (name : List κ)

/-- The name that an operation is for. -/
def FibOp.name : FibOp κ → List κ
  | .insertNextHop name _ _ => name
  | .clearNextHops name => name
  | .removeNextHop name _ => name
  | .setStrategy name _ => name
  | .unSetStrategy name => name

/-- The table as it is meant: the nexthops and the strategy of every name. -/
structure FibSpec (κ : Type*) where
  nexthops : List κ → Finset FibNextHopEntry
  strategy : List κ → Option (List κ)

variable (defaultStrategy : List κ) (spec : FibSpec κ)

/-- There are no nexthops, and the root has the default strategy. -/
def FibSpec.new : FibSpec κ :=
  ⟨fun _ => ∅, update (fun _ => none) [] (some defaultStrategy)⟩

/-- What an operation is meant to do. -/
def FibSpec.step : FibOp κ → FibSpec κ
  | .insertNextHop name nexthop cost =>
    { spec with
      nexthops := update spec.nexthops name
        (insert ⟨nexthop, cost⟩ ((spec.nexthops name).filter (·.nexthop ≠ nexthop))) }
  | .clearNextHops name => { spec with nexthops := update spec.nexthops name ∅ }
  | .removeNextHop name nexthop =>
    { spec with
      nexthops := update spec.nexthops name
        ((spec.nexthops name).filter (·.nexthop ≠ nexthop)) }
  | .setStrategy name strategy =>
    { spec with strategy := update spec.strategy name (some strategy) }
  | .unSetStrategy name => { spec with strategy := update spec.strategy name none }

/-- The table after a sequence of operations. -/
def FibSpec.run (ops : List (FibOp κ)) : FibSpec κ :=
  ops.foldl FibSpec.step (.new defaultStrategy)

/-- The nexthops of the longest prefix that has any. -/
def FibSpec.findNextHops (name : List κ) : Finset FibNextHopEntry :=
  (longestPrefix (fun p => if spec.nexthops p = ∅ then none else some (spec.nexthops p))
    name).getD ∅

/-- The strategy of the longest prefix that has one. -/
def FibSpec.findStrategy (name : List κ) : Option (List κ) :=
  longestPrefix spec.strategy name

/-! ### The tree -/

/-- `baseFibStrategyEntry`. -/
structure FibEntry (κ : Type*) where
  name : List κ
  nexthops : List FibNextHopEntry
  strategy : Option (List κ)

/-- `fibStrategyTreeEntry`. -/
structure FibTreeEntry (κ : Type*) extends FibEntry κ where
  depth : ℕ

/-- `FibStrategyTree`; an entry is found by the components on the way to it. -/
structure FibStrategyTree (κ : Type*) where
  tree : Trie κ (FibTreeEntry κ)

namespace FibStrategyTree

/-- `newFibStrategyTableTree`. -/
def new (defaultStrategy : List κ) : FibStrategyTree κ :=
  ⟨.root ⟨⟨[], [], some defaultStrategy⟩, 0⟩⟩

variable (t : FibStrategyTree κ)

variable (name : List κ)

/-- `findLongestPrefixEntryEnc`, from the root. -/
def findLongestPrefixEntry : List κ :=
  t.tree.descend [] name

/-- `findExactMatchEntryEnc`, from the root. -/
def findExactMatchEntry : Option (List κ) :=
  let found := t.findLongestPrefixEntry name
  if name.length = (t.tree.val found).name.length then some found else none

/-- The entry that `fillTreeToPrefixEnc` makes below another. -/
def child (parent : FibTreeEntry κ) (component : κ) : FibTreeEntry κ :=
  ⟨⟨parent.name ++ [component], [], none⟩, parent.depth + 1⟩

/-- `fillTreeToPrefixEnc`: the missing entries below the longest prefix there is. -/
def fillTreeToPrefix : Trie κ (FibTreeEntry κ) × List κ :=
  let entry := t.findLongestPrefixEntry name
  t.tree.grow id child entry (name.drop (t.tree.val entry).depth)

/-- The test of `pruneIfEmpty` on an entry that is not the root. -/
def isEmptyLeaf (tree : Trie κ (FibTreeEntry κ)) (entry : List κ) : Bool :=
  decide (tree.children entry = ∅) && (tree.val entry).nexthops.isEmpty
    && (tree.val entry).strategy.isNone

/-- The loop of `pruneIfEmpty` for the entry `f`: it walks up from an entry, but the child that
it removes from the parent is always `f`. -/
def pruneFrom (f : List κ) : List κ → Trie κ (FibTreeEntry κ) → Trie κ (FibTreeEntry κ)
  | [], tree => tree
  | k :: parent, tree =>
    if isEmptyLeaf tree (k :: parent) then
      pruneFrom f parent
        (match f with
        | [] => tree
        | j :: q => if q = parent then tree.remove j q else tree)
    else tree

/-- `pruneIfEmpty`. -/
def pruneIfEmpty (tree : Trie κ (FibTreeEntry κ)) (f : List κ) : FibStrategyTree κ :=
  ⟨pruneFrom f f tree⟩

/-- `FindNextHopsEnc`. -/
def findNextHops : List FibNextHopEntry :=
  ((t.findLongestPrefixEntry name).tails.findSome? fun entry =>
    if (t.tree.val entry).nexthops = [] then none else some (t.tree.val entry).nexthops).getD []

/-- `FindStrategyEnc`. -/
def findStrategy : Option (List κ) :=
  (t.findLongestPrefixEntry name).tails.findSome? fun entry => (t.tree.val entry).strategy

/-- `InsertNextHopEnc`. -/
def insertNextHop (nexthop : Face) (cost : ℕ) : FibStrategyTree κ :=
  let filled := t.fillTreeToPrefix name
  ⟨filled.1.modify filled.2 fun entry =>
    { entry with nexthops := insertHop nexthop cost entry.nexthops }⟩

/-- `ClearNextHopsEnc`: a nil name is left alone. -/
def clearNextHops : Option (List κ) → FibStrategyTree κ
  | none => t
  | some name =>
    match t.findExactMatchEntry name with
    | none => t
    | some node => ⟨t.tree.modify node fun entry => { entry with nexthops := [] }⟩

/-- `RemoveNextHopEnc`. -/
def removeNextHop (nexthop : Face) : FibStrategyTree κ :=
  match t.findExactMatchEntry name with
  | none => t
  | some node =>
    pruneIfEmpty (t.tree.modify node fun entry =>
      { entry with nexthops := entry.nexthops.eraseP (·.nexthop = nexthop) }) node

/-- `SetStrategyEnc`. -/
def setStrategy (strategy : List κ) : FibStrategyTree κ :=
  let filled := t.fillTreeToPrefix name
  ⟨filled.1.modify filled.2 fun entry => { entry with strategy := some strategy }⟩

/-- `UnSetStrategyEnc`. -/
def unSetStrategy : FibStrategyTree κ :=
  match t.findExactMatchEntry name with
  | none => t
  | some node => pruneIfEmpty (t.tree.modify node fun entry => { entry with strategy := none }) node

/-- The tree after an operation. -/
def step : FibOp κ → FibStrategyTree κ
  | .insertNextHop name nexthop cost => t.insertNextHop name nexthop cost
  | .clearNextHops name => t.clearNextHops (some name)
  | .removeNextHop name nexthop => t.removeNextHop name nexthop
  | .setStrategy name strategy => t.setStrategy name strategy
  | .unSetStrategy name => t.unSetStrategy name

/-- The tree after a sequence of operations. -/
def run (defaultStrategy : List κ) (ops : List (FibOp κ)) : FibStrategyTree κ :=
  ops.foldl step (new defaultStrategy)

/-! ### What the entries hold -/

/-- The entries of a tree have these nexthops and strategies, and a name without an entry has
none. -/
structure Holds (t : FibStrategyTree κ) (nexthops : List κ → List FibNextHopEntry)
    (strategy : List κ → Option (List κ)) : Prop where
  name : ∀ p ∈ t.tree.paths, (t.tree.val p).name = p.reverse
  depth : ∀ p ∈ t.tree.paths, (t.tree.val p).depth = p.length
  entry : ∀ p ∈ t.tree.paths, (t.tree.val p).nexthops = nexthops p.reverse
    ∧ (t.tree.val p).strategy = strategy p.reverse
  none : ∀ p ∉ t.tree.paths, nexthops p.reverse = [] ∧ strategy p.reverse = none

variable {t : FibStrategyTree κ} {nexthops : List κ → List FibNextHopEntry}
  {strategy : List κ → Option (List κ)} {name : List κ}

omit [DecidableEq κ] in
/-- The entries of a tree, read as a whole. -/
lemma holds_iff {tree : Trie κ (FibTreeEntry κ)} : Holds ⟨tree⟩ nexthops strategy ↔
    (∀ p ∈ tree.paths,
      tree.val p = ⟨⟨p.reverse, nexthops p.reverse, strategy p.reverse⟩, p.length⟩)
      ∧ ∀ p ∉ tree.paths, nexthops p.reverse = [] ∧ strategy p.reverse = Option.none := by
  refine ⟨fun h => ⟨fun p hp => ?_, h.none⟩, fun ⟨hval, hnone⟩ => ⟨?_, ?_, ?_, hnone⟩⟩
  · rw [← (h.entry p hp).1, ← (h.entry p hp).2, ← h.name p hp, ← h.depth p hp]
  all_goals
    intro p hp
    simp [hval p hp]

lemma holds_new {defaultStrategy : List κ} : (new defaultStrategy).Holds (fun _ => [])
    (update (fun _ => Option.none) [] (some defaultStrategy)) := by
  refine holds_iff.mpr ⟨fun p hp => ?_, fun p hp => ⟨rfl, update_of_ne (fun h => hp ?_) _ _⟩⟩
  · rw [Finset.mem_singleton.mp hp]
    rfl
  · exact Finset.mem_singleton.mpr (reverse_eq_nil_iff.mp h)

/-- Where the lookup of a name ends: at a prefix of it, and no entry continues it. -/
lemma findLongestPrefixEntry_spec (t : FibStrategyTree κ) (name : List κ) :
    ∃ taken rest, name = taken ++ rest ∧ t.findLongestPrefixEntry name = taken.reverse
      ∧ taken.reverse ∈ t.tree.paths
      ∧ ∀ q, q <+: rest → q ≠ [] → (taken ++ q).reverse ∉ t.tree.paths := by
  obtain ⟨taken, rest, hname, hpath, hmem, hstop⟩ := Trie.descend_spec t.tree.root_mem name
  rw [append_nil] at hpath
  rw [hpath] at hmem hstop
  refine ⟨taken, rest, hname, hpath, hmem, fun q hq hne hin => ?_⟩
  obtain ⟨k, q, rfl⟩ := exists_cons_of_ne_nil hne
  obtain ⟨tail, rfl⟩ := hq
  refine hstop k rfl (t.tree.suffix_mem ⟨q.reverse, ?_⟩ hin)
  simp

variable {tree : Trie κ (FibTreeEntry κ)}

/-- An entry that `fillTreeToPrefixEnc` makes holds nothing. -/
lemma Holds.addChild (h : Holds ⟨tree⟩ nexthops strategy) {p : List κ} {k : κ} (hp : p ∈ tree.paths)
    (hfree : k :: p ∉ tree.paths) :
    Holds ⟨tree.addChild p k (child (tree.val p) k)⟩ nexthops strategy := by
  obtain ⟨hval, hnone⟩ := holds_iff.mp h
  rw [holds_iff, Trie.addChild_paths hp, Trie.addChild_val hp]
  refine ⟨fun q hq => ?_, fun q hq => hnone q fun hin => hq (Finset.mem_insert_of_mem hin)⟩
  rcases eq_or_ne q (k :: p) with rfl | hne
  · obtain ⟨hhops, hstrategy⟩ := hnone _ hfree
    rw [update_self, hval p hp, hhops, hstrategy]
    simp [child]
  · rw [update_of_ne hne]
    exact hval q (Finset.mem_of_mem_insert_of_ne hq hne)

section

variable (h : t.Holds nexthops strategy)
include h

lemma Holds.fill (name : List κ) :
    (t.fillTreeToPrefix name).2 = name.reverse
      ∧ name.reverse ∈ (t.fillTreeToPrefix name).1.paths
      ∧ Holds ⟨(t.fillTreeToPrefix name).1⟩ nexthops strategy := by
  obtain ⟨taken, rest, rfl, hfound, hmem, hfree⟩ := t.findLongestPrefixEntry_spec name
  have hdrop : (taken ++ rest).drop (t.tree.val taken.reverse).depth = rest := by
    rw [h.depth _ hmem, length_reverse, drop_left]
  have hstop : ∀ c ∈ rest.head?, id c :: taken.reverse ∉ t.tree.paths := by
    intro c hc hin
    obtain ⟨rest, rfl⟩ : ∃ tail, rest = c :: tail := ⟨_, (cons_head?_tail hc).symm⟩
    exact hfree [c] ⟨rest, rfl⟩ (cons_ne_nil _ _) (by simpa using hin)
  have hsnd := Trie.grow_snd (t := t.tree) (p := taken.reverse) id child rest
  rw [map_id, ← reverse_append] at hsnd
  simp only [fillTreeToPrefix, hfound, hdrop]
  refine ⟨hsnd, hsnd ▸ (Trie.grow_spec hmem hstop).1, ?_⟩
  exact Trie.grow_rule (I := fun tree _ _ => Holds ⟨tree⟩ nexthops strategy)
    (fun _ _ _ _ hp hfree h => h.addChild hp hfree) hmem hstop h

omit h in
/-- An entry is edited. -/
lemma Holds.modify (h : Holds ⟨tree⟩ nexthops strategy) (hmem : name.reverse ∈ tree.paths)
    {f : FibTreeEntry κ → FibTreeEntry κ} {value : Option (List κ)}
    (hf : f ⟨⟨name, nexthops name, strategy name⟩, name.length⟩
      = ⟨⟨name, hops, value⟩, name.length⟩) :
    Holds ⟨tree.modify name.reverse f⟩ (update nexthops name hops)
      (update strategy name value) := by
  obtain ⟨hval, hnone⟩ := holds_iff.mp h
  have hrev : ∀ q : List κ, q ≠ name.reverse → q.reverse ≠ name := fun q hne heq =>
    hne (by rw [← heq, reverse_reverse])
  refine holds_iff.mpr ⟨fun q hq => ?_, fun q hq => ?_⟩
  · rcases eq_or_ne q name.reverse with rfl | hne
    · rw [Trie.modify_val_self, hval _ hmem, reverse_reverse, length_reverse, hf,
        update_self, update_self]
    · rw [Trie.modify_val_of_ne hne, update_of_ne (hrev q hne), update_of_ne (hrev q hne)]
      exact hval q hq
  · have hne : q ≠ name.reverse := fun heq => hq (heq ▸ hmem)
    rw [update_of_ne (hrev q hne), update_of_ne (hrev q hne)]
    exact hnone q hq

/-- The exact match is the entry of the name, or the name has none. -/
lemma Holds.findExact :
    t.findExactMatchEntry name = some name.reverse ∧ name.reverse ∈ t.tree.paths
      ∨ t.findExactMatchEntry name = Option.none ∧ nexthops name = []
        ∧ strategy name = Option.none := by
  obtain ⟨taken, rest, rfl, hfound, hmem, hfree⟩ := t.findLongestPrefixEntry_spec name
  rw [findExactMatchEntry, hfound, h.name _ hmem, reverse_reverse, length_append]
  rcases eq_or_ne rest [] with rfl | hne
  · exact .inl (by simp [hmem])
  · have hpos : 0 < rest.length := length_pos_of_ne_nil hne
    have hnone := h.none _ (hfree rest (prefix_refl rest) hne)
    rw [reverse_reverse] at hnone
    exact .inr ⟨if_neg (by omega), hnone⟩

omit h in
lemma pruneFrom_shorter {f entry : List κ} (h : entry.length < f.length) :
    pruneFrom f entry tree = tree := by
  induction entry with
  | nil => rfl
  | cons k parent ih =>
    unfold pruneFrom
    split_ifs
    · obtain ⟨j, q, rfl⟩ : ∃ j q, f = j :: q :=
        exists_cons_of_ne_nil (ne_nil_of_length_pos (by omega))
      have hne : q ≠ parent := by
        rintro rfl
        exact Nat.lt_irrefl _ h
      simp only [if_neg hne]
      exact ih (Nat.lt_of_succ_lt h)
    · rfl

omit h in
/-- `pruneIfEmpty` removes the entry, if it is an empty leaf, and no other. -/
lemma pruneIfEmpty_cases (tree : Trie κ (FibTreeEntry κ)) (f : List κ) :
    pruneIfEmpty tree f = ⟨tree⟩
      ∨ ∃ k p, f = k :: p ∧ tree.children f = ∅ ∧ (tree.val f).nexthops = []
        ∧ (tree.val f).strategy = Option.none ∧ pruneIfEmpty tree f = ⟨tree.remove k p⟩ := by
  cases f with
  | nil => exact .inl rfl
  | cons k p =>
    by_cases hleaf : isEmptyLeaf tree (k :: p) = true
    · refine .inr ⟨k, p, rfl, ?_⟩
      have hpruned : pruneIfEmpty tree (k :: p) = ⟨tree.remove k p⟩ := by
        simp only [pruneIfEmpty, pruneFrom, hleaf, if_true]
        rw [pruneFrom_shorter (Nat.lt_succ_self _)]
      simp only [isEmptyLeaf, Bool.and_eq_true, decide_eq_true_eq, List.isEmpty_iff,
        Option.isNone_iff_eq_none] at hleaf
      exact ⟨hleaf.1.1, hleaf.1.2, hleaf.2, hpruned⟩
    · exact .inl (by simp [pruneIfEmpty, pruneFrom, hleaf])

omit h in
/-- An entry that holds nothing may be removed. -/
lemma Holds.prune (h : Holds ⟨tree⟩ nexthops strategy) {f : List κ} :
    (pruneIfEmpty tree f).Holds nexthops strategy := by
  rcases pruneIfEmpty_cases tree f with heq | ⟨k, p, rfl, hleaf, hhops, hstrategy, heq⟩
  · rwa [heq]
  · have hpaths : (tree.remove k p).paths = tree.paths.erase (k :: p) := by
      rw [Trie.remove, dif_pos hleaf]
    have hval : (tree.remove k p).val = tree.val := by rw [Trie.remove, dif_pos hleaf]
    have hsub : ∀ q ∈ (tree.remove k p).paths, q ∈ tree.paths := fun q hq =>
      Finset.mem_of_mem_erase (hpaths ▸ hq)
    obtain ⟨hentry, hnone⟩ := holds_iff.mp h
    rw [heq, holds_iff, hval]
    refine ⟨fun q hq => hentry q (hsub q hq), fun q hq => ?_⟩
    by_cases hold : q ∈ tree.paths
    · obtain rfl : q = k :: p := by
        by_contra hne
        exact hq (hpaths ▸ Finset.mem_erase.mpr ⟨hne, hold⟩)
      obtain ⟨hn, hs⟩ := h.entry _ hold
      exact ⟨hn.symm.trans hhops, hs.symm.trans hstrategy⟩
    · exact hnone q hold

/-! ### The operations -/

lemma Holds.insertNextHop (name : List κ) (nexthop : Face)
    (cost : ℕ) : (t.insertNextHop name nexthop cost).Holds
      (update nexthops name (insertHop nexthop cost (nexthops name))) strategy := by
  obtain ⟨hsnd, hmem, hfill⟩ := h.fill name
  have hedit := hfill.modify hmem (f := fun entry =>
    { entry with nexthops := insertHop nexthop cost entry.nexthops }) rfl
  rw [update_eq_self] at hedit
  rwa [FibStrategyTree.insertNextHop, hsnd]

lemma Holds.setStrategy {value : List κ} :
    (t.setStrategy name value).Holds nexthops (update strategy name (some value)) := by
  obtain ⟨hsnd, hmem, hfill⟩ := h.fill name
  have hedit := hfill.modify hmem (f := fun entry => { entry with strategy := some value }) rfl
  rw [update_eq_self] at hedit
  rwa [FibStrategyTree.setStrategy, hsnd]

lemma Holds.clearNextHops :
    (t.clearNextHops (some name)).Holds (update nexthops name []) strategy := by
  rw [FibStrategyTree.clearNextHops]
  rcases h.findExact with ⟨hfind, hmem⟩ | ⟨hfind, hn, -⟩
  · have hedit := h.modify hmem (f := fun entry => { entry with nexthops := [] }) rfl
    rw [update_eq_self] at hedit
    rwa [hfind]
  · rw [hfind, ← hn, update_eq_self]
    exact h

lemma Holds.removeNextHop {nexthop : Face} :
    (t.removeNextHop name nexthop).Holds
      (update nexthops name ((nexthops name).eraseP (·.nexthop = nexthop))) strategy := by
  rw [FibStrategyTree.removeNextHop]
  rcases h.findExact with ⟨hfind, hmem⟩ | ⟨hfind, hn, -⟩
  · have hedit := h.modify hmem (f := fun entry =>
      { entry with nexthops := entry.nexthops.eraseP (·.nexthop = nexthop) }) rfl
    rw [update_eq_self] at hedit
    rw [hfind]
    exact hedit.prune
  · rw [hfind, hn, eraseP_nil, ← hn, update_eq_self]
    exact h

lemma Holds.unSetStrategy :
    (t.unSetStrategy name).Holds nexthops (update strategy name Option.none) := by
  rw [FibStrategyTree.unSetStrategy]
  rcases h.findExact with ⟨hfind, hmem⟩ | ⟨hfind, -, hs⟩
  · have hedit := h.modify hmem (f := fun entry => { entry with strategy := Option.none }) rfl
    rw [update_eq_self] at hedit
    rw [hfind]
    exact hedit.prune
  · have hsame : update strategy name Option.none = strategy := by rw [← hs, update_eq_self]
    rwa [hfind, hsame]

/-! ### The lookups -/

omit h in
/-- A lookup goes up from the entry of the longest prefix there is. -/
lemma findSome?_longestPrefix {β : Type*} {f : List κ → Option β}
    (hnone : ∀ p ∉ t.tree.paths, f p.reverse = Option.none) {g : FibTreeEntry κ → Option β}
    (hg : ∀ p ∈ t.tree.paths, g (t.tree.val p) = f p.reverse) :
    (t.findLongestPrefixEntry name).tails.findSome? (fun entry => g (t.tree.val entry))
      = longestPrefix f name := by
  obtain ⟨taken, rest, rfl, hfound, hmem, hfree⟩ := t.findLongestPrefixEntry_spec name
  have hcut : longestPrefix f (taken ++ rest) = longestPrefix f taken := by
    refine longestPrefix_append_of_none fun q hq hne => ?_
    have hout := hnone _ (hfree q hq hne)
    rwa [reverse_reverse] at hout
  rw [hfound, findSome?_tails_reverse, hcut]
  refine longestPrefix_congr fun q hq => ?_
  rw [hg _ (t.tree.suffix_mem (reverse_suffix.mpr hq) hmem), reverse_reverse]

lemma Holds.findNextHops :
    t.findNextHops name = (longestPrefix (fun p =>
      if nexthops p = [] then Option.none else some (nexthops p)) name).getD [] := by
  rw [FibStrategyTree.findNextHops,
    findSome?_longestPrefix (f := fun p => if nexthops p = [] then Option.none
      else some (nexthops p)) (g := fun entry => if entry.nexthops = [] then Option.none
      else some entry.nexthops)]
  · intro p hp
    rw [if_pos (h.none p hp).1]
  · intro p hp
    rw [(h.entry p hp).1]

lemma Holds.findStrategy : t.findStrategy name = longestPrefix strategy name :=
  findSome?_longestPrefix (g := fun entry => entry.strategy) (fun p hp => (h.none p hp).2)
    (fun p hp => (h.entry p hp).2)

end

end FibStrategyTree

/-! ### Refinement -/

variable {nexthops : List κ → List FibNextHopEntry} {strategy : List κ → Option (List κ)}
  {spec : FibSpec κ}

/-- The nexthops and strategies of a table are those of the specification. -/
structure FibSpec.Lists (spec : FibSpec κ) (nexthops : List κ → List FibNextHopEntry)
    (strategy : List κ → Option (List κ)) : Prop where
  nexthops : ∀ name, Mars.Lists (nexthops name) (spec.nexthops name)
  strategy : strategy = spec.strategy

omit [DecidableEq κ] in
/-- A lookup of nexthops by the longest prefix. -/
lemma FibSpec.Lists.findNextHops (h : spec.Lists nexthops strategy) {name : List κ} :
    ((longestPrefix (fun p => if nexthops p = [] then none else some (nexthops p))
      name).getD []).toFinset = spec.findNextHops name := by
  have hmap : (fun p => if spec.nexthops p = ∅ then none else some (spec.nexthops p))
      = fun p => (if nexthops p = [] then none else some (nexthops p)).map toFinset := by
    funext p
    have hlists := h.nexthops p
    by_cases hnil : nexthops p = []
    · rw [if_pos hnil, if_pos (hlists.nil_iff.mp hnil), Option.map_none]
    · rw [if_neg hnil, if_neg (hlists.nil_iff.not.mp hnil), Option.map_some, hlists.toFinset]
  rw [FibSpec.findNextHops, hmap, longestPrefix_map, ← toFinset_nil, Option.getD_map]

/-- The nexthops of one name change. -/
lemma FibSpec.Lists.update (h : spec.Lists nexthops strategy) (name : List κ)
    (hhops : Mars.Lists hops s) :
    FibSpec.Lists { spec with nexthops := update spec.nexthops name s }
      (update nexthops name hops) strategy where
  nexthops := (forall_update_iff _ fun name' hops' =>
    Mars.Lists hops' (Function.update spec.nexthops name s name')).mpr
      ⟨by rwa [update_self], fun name' hne => by rw [update_of_ne hne]; exact h.nexthops name'⟩
  strategy := h.strategy

/-- **The tree is a table of the specification**, after every sequence of operations. -/
lemma tree_refines (ops : List (FibOp κ)) :
    ∃ nexthops strategy, (FibStrategyTree.run defaultStrategy ops).Holds nexthops strategy
      ∧ (FibSpec.run defaultStrategy ops).Lists nexthops strategy := by
  induction ops using reverseRecOn with
  | nil => exact ⟨_, _, FibStrategyTree.holds_new, fun _ => lists_nil, rfl⟩
  | append_singleton ops op ih =>
    obtain ⟨nexthops, strategy, hheld, hspec⟩ := ih
    have hstrategy := hspec.strategy
    rw [FibStrategyTree.run, FibSpec.run, foldl_append, foldl_append]
    cases op with
    | insertNextHop name nexthop cost =>
      exact ⟨_, _, hheld.insertNextHop name nexthop cost,
        hspec.update name ((hspec.nexthops name).insertHop)⟩
    | clearNextHops name =>
      exact ⟨_, _, hheld.clearNextHops, hspec.update name lists_nil⟩
    | removeNextHop name nexthop =>
      exact ⟨_, _, hheld.removeNextHop, hspec.update name ((hspec.nexthops name).erase (.refl _))⟩
    | setStrategy name value =>
      exact ⟨_, _, hheld.setStrategy, hspec.nexthops, by rw [hstrategy]; rfl⟩
    | unSetStrategy name =>
      exact ⟨_, _, hheld.unSetStrategy, hspec.nexthops, by rw [hstrategy]; rfl⟩

/-- **A lookup names no face twice**, so that path discovery may count on it. -/
theorem fib_faces_distinct (ops : List (FibOp κ)) (name : List κ) :
    (((FibStrategyTree.run defaultStrategy ops).findNextHops name).map (·.nexthop)).Nodup := by
  obtain ⟨nexthops, strategy, htree, hspec⟩ := tree_refines defaultStrategy ops
  rw [htree.findNextHops]
  cases hfound : longestPrefix _ name with
  | none => exact nodup_nil
  | some hops =>
    obtain ⟨q, -, -, hq, -⟩ := longestPrefix_eq_some hfound
    split_ifs at hq
    obtain rfl := Option.some.inj hq
    exact (hspec.nexthops q).faces

end Mars
