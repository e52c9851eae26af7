import Mathlib.Algebra.Order.BigOperators.Group.Finset
import Mathlib.Order.Lattice.Nat

/-!
Trees whose edges are labelled by keys, as prefix-closed sets of paths.

A path lists the keys from a node up to the root, so its tail is the path of the parent.

* `descend`: from a node down as far as the keys lead; `findExact`: all the way or not at all;
* `grow`: a chain of new nodes below a node;
* `prune`: from a node up, empty leaves are removed;
* `grow_rule`: the rule for a chain; `grow_spec`, `grow_induction`, `grow_edges`,
  `mem_paths_prune`: what is there survives both, and what holds of a node's value by its parent's
  holds after both;
* `weight`: the sum of a quantity over the nodes;
* `LiveBut`: no leaf is empty but perhaps one; the end of a new chain may be (`grow_live`), and
  `prune` from that leaf leaves none (`prune_live`).
-/

/-- A tree with a value at each node. -/
@[ext]
structure Trie (κ α : Type*) where
  paths : Finset (List κ)
  val : List κ → α
  root_mem : [] ∈ paths
  parent_mem : ∀ k p, k :: p ∈ paths → p ∈ paths

namespace Trie

open Finset List Function

variable {κ α γ : Type*} [DecidableEq κ] {t : Trie κ α} {p q : List κ} {k : κ} {key : γ → κ}
  {new : α → γ → α} {cs : List γ} {f : α → α}

/-- The tree that is only a root. -/
def root (a : α) : Trie κ α where
  paths := {[]}
  val := fun _ => a
  root_mem := Finset.mem_singleton_self _
  parent_mem := fun k p h => absurd (Finset.mem_singleton.mp h) (List.cons_ne_nil k p)

/-- Change the value of a node. -/
def modify (t : Trie κ α) (p : List κ) (f : α → α) : Trie κ α :=
  { t with val := Function.update t.val p (f (t.val p)) }

@[simp] lemma modify_paths : (t.modify p f).paths = t.paths := rfl

@[simp] lemma modify_val_self : (t.modify p f).val p = f (t.val p) :=
  update_self _ _ _

lemma modify_val_of_ne (hne : q ≠ p) : (t.modify p f).val q = t.val q :=
  update_of_ne hne _ _

/-- What an edit does not change is the same at every node. -/
lemma modify_val_congr {β : Type*} (g : α → β) (hf : ∀ a, g (f a) = g a) (p q : List κ) :
    g ((t.modify p f).val q) = g (t.val q) := by
  rcases eq_or_ne q p with rfl | hne
  · rw [modify_val_self, hf]
  · rw [modify_val_of_ne hne]

/-- The keys of the edges below a node. -/
def children (t : Trie κ α) (p : List κ) : Finset κ :=
  (t.paths.filter fun q => q.tail? = some p).biUnion fun q => q.head?.toFinset

lemma mem_children : k ∈ t.children p ↔ k :: p ∈ t.paths := by
  simp only [children, Finset.mem_biUnion, Finset.mem_filter, Option.mem_toFinset, Option.mem_def]
  constructor
  · rintro ⟨q, ⟨hq, htail⟩, hhead⟩
    cases q with
    | nil => cases htail
    | cons j q =>
      simp only [List.tail?_cons, List.head?_cons, Option.some.injEq] at htail hhead
      rwa [← htail, ← hhead]
  · exact fun h => ⟨k :: p, ⟨h, rfl⟩, rfl⟩

omit [DecidableEq κ] in
/-- Every node above a node is one of the tree. -/
lemma suffix_mem (t : Trie κ α) (h : p <:+ q) (hq : q ∈ t.paths) : p ∈ t.paths := by
  obtain ⟨ks, rfl⟩ := h
  induction ks with
  | nil => exact hq
  | cons k ks ih => exact ih (t.parent_mem k _ hq)

/-! ### Lookup -/

/-- From the node at `p` down as far as the keys lead. -/
def descend (t : Trie κ α) : List κ → List κ → List κ
  | p, [] => p
  | p, k :: ks => if k :: p ∈ t.paths then t.descend (k :: p) ks else p

/-- The node that all keys lead to. -/
def findExact (t : Trie κ α) : List κ → List κ → Option (List κ)
  | p, [] => some p
  | p, k :: ks => if k :: p ∈ t.paths then t.findExact (k :: p) ks else none

/-- A descent depends on the nodes there are, not on their values. -/
lemma descend_congr {t' : Trie κ α} (hpaths : t'.paths = t.paths) {ks : List κ} :
    t'.descend p ks = t.descend p ks := by
  induction ks generalizing p with
  | nil => rfl
  | cons k ks ih => rw [descend, descend, hpaths, ih]

/-- If there is a node at the end of the keys, a descent ends there. -/
lemma descend_of_mem {ks : List κ} (h : ks.reverse ++ p ∈ t.paths) :
    t.descend p ks = ks.reverse ++ p := by
  induction ks generalizing p with
  | nil => rfl
  | cons k ks ih =>
    rw [reverse_cons, append_assoc, singleton_append] at h ⊢
    rw [descend, if_pos (t.suffix_mem ⟨_, rfl⟩ h), ih h]

/-- `findExact` finds the node at the end of the keys, if there is one. -/
lemma findExact_eq_some (hp : p ∈ t.paths) {ks : List κ} :
    t.findExact p ks = some q ↔ q = ks.reverse ++ p ∧ q ∈ t.paths := by
  induction ks generalizing p with
  | nil =>
    rw [findExact, Option.some_inj, reverse_nil, nil_append]
    constructor
    · rintro rfl
      exact ⟨rfl, hp⟩
    · exact fun h => h.1.symm
  | cons k ks ih =>
    rw [findExact, reverse_cons, append_assoc, singleton_append]
    split_ifs with hk
    · exact ih hk
    · refine ⟨nofun, ?_⟩
      rintro ⟨rfl, hq⟩
      exact absurd (t.suffix_mem ⟨_, rfl⟩ hq) hk

/-! ### Growth -/

/-- A new child of the node at `p`. -/
def addChild (t : Trie κ α) (p : List κ) (k : κ) (a : α) : Trie κ α :=
  if h : p ∈ t.paths then
    { paths := insert (k :: p) t.paths
      val := Function.update t.val (k :: p) a
      root_mem := mem_insert_of_mem t.root_mem
      parent_mem := fun j q hq => by
        rcases mem_insert.mp hq with heq | hq
        · cases heq
          exact mem_insert_of_mem h
        · exact mem_insert_of_mem (t.parent_mem j q hq) }
  else t

lemma addChild_paths (hp : p ∈ t.paths) (k : κ) (a : α) :
    (t.addChild p k a).paths = insert (k :: p) t.paths := by
  simp [addChild, hp]

lemma addChild_val (hp : p ∈ t.paths) {a : α} :
    (t.addChild p k a).val = Function.update t.val (k :: p) a := by
  simp [addChild, hp]

/-- A chain of new nodes below the node at `p`, one for each label; `new` makes the value of a
node from its parent's and its label. -/
def grow (key : γ → κ) (new : α → γ → α) : Trie κ α → List κ → List γ → Trie κ α × List κ
  | t, p, [] => (t, p)
  | t, p, c :: cs =>
    grow key new (t.addChild p (key c) (new (t.val p) c)) (key c :: p) cs

/-- Where `descend` stops, the next key leads nowhere. -/
lemma descend_spec (hp : p ∈ t.paths) (ks : List κ) :
    ∃ taken rest, ks = taken ++ rest ∧ t.descend p ks = taken.reverse ++ p
      ∧ t.descend p ks ∈ t.paths ∧ ∀ k ∈ rest.head?, k :: t.descend p ks ∉ t.paths := by
  induction ks generalizing p with
  | nil => exact ⟨[], [], rfl, rfl, hp, by simp⟩
  | cons k ks ih =>
    unfold descend
    split_ifs with hk
    · obtain ⟨taken, rest, rfl, hpath, hmem, hstop⟩ := ih hk
      exact ⟨k :: taken, rest, rfl, by simpa using hpath, hmem, hstop⟩
    · exact ⟨[], k :: ks, rfl, rfl, hp, by simpa using hk⟩

/-- The end of a chain. -/
lemma grow_snd (key : γ → κ) (new : α → γ → α) (cs : List γ) :
    (grow key new t p cs).2 = (cs.map key).reverse ++ p := by
  induction cs generalizing t p with
  | nil => rfl
  | cons c cs ih =>
    rw [grow, ih, List.map_cons, List.reverse_cons, List.append_assoc, List.singleton_append]

/-- The rule for a chain that grows where there is no node: what is kept by every new node, of the
tree, the end of the chain and the labels to come, is kept by the chain. -/
lemma grow_rule {I : Trie κ α → List κ → List γ → Prop}
    (hstep : ∀ t p c cs, p ∈ t.paths → key c :: p ∉ t.paths → I t p (c :: cs) →
      I (t.addChild p (key c) (new (t.val p) c)) (key c :: p) cs)
    (hp : p ∈ t.paths) (hfree : ∀ c ∈ cs.head?, key c :: p ∉ t.paths) (h : I t p cs) :
    I (grow key new t p cs).1 (grow key new t p cs).2 [] := by
  induction cs generalizing t p with
  | nil => exact h
  | cons c cs ih =>
    have hnew : key c :: p ∉ t.paths := hfree c rfl
    have hpaths := addChild_paths hp (key c) (new (t.val p) c)
    refine ih (hpaths ▸ mem_insert_self _ _) (fun d _ hd => ?_) (hstep t p c cs hp hnew h)
    rw [hpaths, mem_insert] at hd
    rcases hd with heq | hd
    · exact absurd (congrArg length heq) (by simp)
    · exact hnew (t.parent_mem _ _ hd)

/-- A chain that grows where there is no node leaves the nodes that are there. -/
lemma grow_spec (hp : p ∈ t.paths) (hfree : ∀ c ∈ cs.head?, key c :: p ∉ t.paths) :
    (grow key new t p cs).2 ∈ (grow key new t p cs).1.paths
      ∧ (grow key new t p cs).1.val (grow key new t p cs).2 = cs.foldl new (t.val p)
      ∧ ∀ q ∈ t.paths, q ∈ (grow key new t p cs).1.paths
        ∧ (grow key new t p cs).1.val q = t.val q := by
  refine grow_rule (I := fun t' p' cs' => p' ∈ t'.paths
    ∧ cs'.foldl new (t'.val p') = cs.foldl new (t.val p)
    ∧ ∀ q ∈ t.paths, q ∈ t'.paths ∧ t'.val q = t.val q) (fun t' p' c cs' hp' hnew h => ?_) hp hfree
    ⟨hp, rfl, fun q hq => ⟨hq, rfl⟩⟩
  rw [addChild_paths hp', addChild_val hp', update_self]
  refine ⟨mem_insert_self _ _, h.2.1, fun q hq => ?_⟩
  obtain ⟨hmem, hval⟩ := h.2.2 q hq
  exact ⟨mem_insert_of_mem hmem, (update_of_ne (ne_of_mem_of_not_mem hmem hnew) _ _).trans hval⟩

/-- What holds at every node, and at a new node if it does at its parent, holds at every node
of a tree with a new chain. -/
lemma grow_induction {I : List κ → α → Prop} (hnew : ∀ q a c, I q a → I (key c :: q) (new a c))
    (hI : ∀ q ∈ t.paths, I q (t.val q)) (hp : p ∈ t.paths)
    (hfree : ∀ c ∈ cs.head?, key c :: p ∉ t.paths) :
    ∀ q ∈ (grow key new t p cs).1.paths, I q ((grow key new t p cs).1.val q) := by
  refine grow_rule (I := fun t _ _ => ∀ q ∈ t.paths, I q (t.val q))
    (fun t p c _ hp _ h q hq => ?_) hp hfree hI
  rw [addChild_paths hp] at hq
  rw [addChild_val hp]
  rcases eq_or_ne q (key c :: p) with rfl | hne
  · rw [update_self]
    exact hnew p _ c (h p hp)
  · rw [update_of_ne hne]
    exact h q ((mem_insert.mp hq).resolve_left hne)

/-- What relates the value of every node to that of its parent, and that of a new node to that
of the node it is made below, does so in a tree with a new chain. -/
lemma grow_edges {R : α → α → Prop} (hnew : ∀ a c, R a (new a c))
    (hR : ∀ k q, k :: q ∈ t.paths → R (t.val q) (t.val (k :: q))) (hp : p ∈ t.paths)
    (hfree : ∀ c ∈ cs.head?, key c :: p ∉ t.paths) :
    ∀ k q, k :: q ∈ (grow key new t p cs).1.paths →
      R ((grow key new t p cs).1.val q) ((grow key new t p cs).1.val (k :: q)) := by
  refine grow_rule (I := fun t _ _ => ∀ k q, k :: q ∈ t.paths → R (t.val q) (t.val (k :: q)))
    (fun t p c _ hp hend h k q hk => ?_) hp hfree hR
  rw [addChild_paths hp, mem_insert] at hk
  rw [addChild_val hp]
  rcases hk with heq | hk
  · obtain ⟨rfl, rfl⟩ := List.cons.inj heq
    rw [update_self, update_of_ne (cons_ne_self _ _).symm]
    exact hnew _ _
  · -- neither the node nor its parent is the new one
    rw [update_of_ne (ne_of_mem_of_not_mem hk hend),
      update_of_ne (ne_of_mem_of_not_mem (t.parent_mem k q hk) hend)]
    exact h k q hk

/-! ### Pruning -/

/-- Remove a node that has no children. -/
def remove (t : Trie κ α) (k : κ) (p : List κ) : Trie κ α :=
  if h : t.children (k :: p) = ∅ then
    { t with
      paths := t.paths.erase (k :: p)
      root_mem := mem_erase.mpr ⟨(cons_ne_nil k p).symm, t.root_mem⟩
      parent_mem := fun j q hq => by
        obtain ⟨-, hq⟩ := mem_erase.mp hq
        refine mem_erase.mpr ⟨?_, t.parent_mem j q hq⟩
        rintro rfl
        exact notMem_empty j (h ▸ mem_children.mpr hq) }
  else t

/-- From the node at a path up, nodes are removed while they are empty leaves. -/
def prune (isEmpty : α → Bool) : Trie κ α → List κ → Trie κ α
  | t, [] => t
  | t, k :: p =>
    if t.children (k :: p) = ∅ ∧ isEmpty (t.val (k :: p)) then prune isEmpty (t.remove k p) p
    else t

@[simp] lemma val_prune {isEmpty : α → Bool} : (prune isEmpty t p).val = t.val := by
  induction p generalizing t with
  | nil => rfl
  | cons k p ih =>
    unfold prune
    split_ifs
    · rw [ih, remove]
      split_ifs <;> rfl
    · rfl

lemma prune_subset {isEmpty : α → Bool} : (prune isEmpty t p).paths ⊆ t.paths := by
  induction p generalizing t with
  | nil => exact Subset.refl _
  | cons k p ih =>
    unfold prune
    split_ifs with hprune
    · refine ih.trans ?_
      rw [remove, dif_pos hprune.1]
      exact erase_subset _ _
    · exact Subset.refl _

/-- A node that is not empty stays. -/
lemma mem_paths_prune {isEmpty : α → Bool} (hq : q ∈ t.paths) (hval : isEmpty (t.val q) = false) :
    q ∈ (prune isEmpty t p).paths := by
  induction p generalizing t with
  | nil => exact hq
  | cons k p ih =>
    unfold prune
    split_ifs with hprune
    · have hne : q ≠ k :: p := by
        rintro rfl
        exact absurd (hval.symm.trans hprune.2) (by decide)
      refine ih ?_ ?_
      · rw [remove, dif_pos hprune.1]
        exact mem_erase.mpr ⟨hne, hq⟩
      · rw [remove, dif_pos hprune.1]
        exact hval
    · exact hq

/-! ### Sums over the nodes -/

/-- The sum of a quantity over the nodes. -/
def weight (f : α → ℕ) (t : Trie κ α) : ℕ := ∑ q ∈ t.paths, f (t.val q)

lemma weight_modify {f : α → ℕ} (hp : p ∈ t.paths) {g : α → α} :
    (t.modify p g).weight f + f (t.val p) = t.weight f + f (g (t.val p)) := by
  have hother : ∑ q ∈ t.paths.erase p, f ((t.modify p g).val q)
      = ∑ q ∈ t.paths.erase p, f (t.val q) := by
    refine sum_congr rfl fun q hq => ?_
    rw [modify_val_of_ne (ne_of_mem_erase hq)]
  rw [weight, weight, modify_paths, ← add_sum_erase _ _ hp, ← add_sum_erase _ _ hp,
    hother, modify_val_self]
  omega

omit [DecidableEq κ] in
/-- Nodes without weight may be added. -/
lemma weight_eq_of_subset {t' : Trie κ α} {f : α → ℕ} (hsub : t.paths ⊆ t'.paths)
    (hold : ∀ q ∈ t.paths, f (t'.val q) = f (t.val q))
    (hnew : ∀ q ∈ t'.paths, q ∉ t.paths → f (t'.val q) = 0) : t'.weight f = t.weight f := by
  rw [weight, weight, ← sum_subset hsub hnew]
  exact sum_congr rfl hold

lemma weight_prune {isEmpty : α → Bool} {f : α → ℕ} (hempty : ∀ a, isEmpty a = true → f a = 0) :
    (prune isEmpty t p).weight f = t.weight f := by
  refine (weight_eq_of_subset prune_subset (fun q _ => by rw [val_prune]) ?_).symm
  intro q hq hout
  refine hempty _ (Bool.not_eq_false _ ▸ fun hfull => hout (mem_paths_prune hq hfull))

/-! ### Leaves -/

/-- Every leaf but the root and the node at `p` is not empty. -/
def LiveBut (isEmpty : α → Bool) (p : List κ) (t : Trie κ α) : Prop :=
  ∀ q ∈ t.paths, q ≠ [] → q ≠ p → t.children q = ∅ → isEmpty (t.val q) = false

/-- Every leaf but the root is not empty. -/
def Live (isEmpty : α → Bool) (t : Trie κ α) : Prop :=
  ∀ q ∈ t.paths, q ≠ [] → t.children q = ∅ → isEmpty (t.val q) = false

variable {isEmpty : α → Bool}

lemma Live.liveBut (h : Live isEmpty t) : LiveBut isEmpty p t :=
  fun q hq hroot _ => h q hq hroot

lemma children_addChild_of_ne (hp : p ∈ t.paths) {a : α} (hne : q ≠ p) :
    (t.addChild p k a).children q = t.children q := by
  ext j
  rw [mem_children, mem_children, addChild_paths hp, mem_insert]
  refine or_iff_right fun heq => hne (List.cons.inj heq).2

/-- Only the end of a new chain may be an empty leaf. -/
lemma grow_live (hp : p ∈ t.paths) (hfree : ∀ c ∈ cs.head?, key c :: p ∉ t.paths)
    (h : LiveBut isEmpty p t) :
    LiveBut isEmpty (grow key new t p cs).2 (grow key new t p cs).1 := by
  refine grow_rule (I := fun t p _ => LiveBut isEmpty p t)
    (fun t p c _ hp hend h q hq hroot hne hleaf => ?_) hp hfree h
  -- the node that the chain starts from has a child now
  have hqp : q ≠ p := by
    rintro rfl
    refine notMem_empty (key c) (hleaf ▸ mem_children.mpr ?_)
    rw [addChild_paths hp]
    exact mem_insert_self _ _
  rw [addChild_paths hp, mem_insert] at hq
  rw [addChild_val hp, update_of_ne hne]
  rw [children_addChild_of_ne hp hqp] at hleaf
  exact h q (hq.resolve_left hne) hroot hqp hleaf

/-- A leaf that is given a value that is not empty. -/
lemma LiveBut.modify (h : LiveBut isEmpty p t) {g : α → α} (hfull : isEmpty (g (t.val p)) = false) :
    Live isEmpty (t.modify p g) := by
  intro q hq hroot hleaf
  rcases eq_or_ne q p with rfl | hne
  · rw [modify_val_self]
    exact hfull
  · rw [modify_val_of_ne hne]
    exact h q hq hroot hne hleaf

lemma children_remove_of_ne (hleaf : t.children (k :: p) = ∅) (hne : q ≠ p) :
    (t.remove k p).children q = t.children q := by
  ext j
  rw [mem_children, mem_children, remove, dif_pos hleaf, mem_erase]
  refine and_iff_right fun heq => hne (List.cons.inj heq).2

/-- **Pruning from the only leaf that may be empty leaves none.** -/
lemma prune_live (h : LiveBut isEmpty p t) : Live isEmpty (prune isEmpty t p) := by
  induction p generalizing t with
  | nil => exact fun q hq hroot => h q hq hroot hroot
  | cons k p ih =>
    unfold prune
    split_ifs with hprune
    · refine ih fun q hq hroot hne hleaf => ?_
      rw [children_remove_of_ne hprune.1 hne] at hleaf
      rw [remove, dif_pos hprune.1] at hq ⊢
      obtain ⟨hqk, hq⟩ := mem_erase.mp hq
      exact h q hq hroot hqk hleaf
    · intro q hq hroot hleaf
      rcases eq_or_ne q (k :: p) with rfl | hne
      · exact Bool.eq_false_iff.mpr fun hempty => hprune ⟨hleaf, hempty⟩
      · exact h q hq hroot hne hleaf

end Trie
