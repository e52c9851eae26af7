import Mars.Basic
import Mathlib.Data.List.AList

/-!
The name trie of the engine, with its nodes on a heap.

A closure may keep a node that has been pruned, while another node has taken its place, so nodes are
modelled with their identities.

* `NameTrie`: `exactMatch`, `prefixMatch`, `matchAlways`, `pruneIf` as the source has them;
  `upwards`: the nodes from one up to the root;
* `Ok`: what holds of every heap; `Linked`: the node is the child of its parent under its key;
* `GoneEmpty`: nodes that are not linked are empty; then every other node is found by its name
  (`exactMatch_of_linked`);
* `Unreplaced`, `LoneEmpty`: when pruning keeps that so (`goneEmpty_pruneUp`).
-/

namespace Mars

open Function AList Nat Option List

/-- The nodes of a `NameTrie`: the node `0` is the root.  `up` is the key and the parent. -/
structure NameTrie (κ V : Type*) where
  next : ℕ
  up : ℕ → Option (κ × ℕ)
  dep : ℕ → ℕ
  chd : ℕ → AList fun _ : κ => ℕ
  val : ℕ → V

namespace NameTrie

variable {κ V : Type*} [DecidableEq κ] [Inhabited V]

/-- `NewNameTrie`. -/
def new : NameTrie κ V := ⟨1, fun _ => none, fun _ => 0, fun _ => ∅, fun _ => default⟩

/-- `SetValue`. -/
def setValue (h : NameTrie κ V) (n : ℕ) (v : V) : NameTrie κ V :=
  { h with val := update h.val n v }

/-- `ExactMatch`, from a node and with the components from its depth on. -/
def exactMatch (h : NameTrie κ V) : ℕ → List κ → Option ℕ
  | n, [] => some n
  | n, c :: cs =>
    match (h.chd n).lookup c with
    | some ch => h.exactMatch ch cs
    | none => none

/-- `PrefixMatch`. -/
def prefixMatch (h : NameTrie κ V) : ℕ → List κ → ℕ
  | n, [] => n
  | n, c :: cs =>
    match (h.chd n).lookup c with
    | some ch => h.prefixMatch ch cs
    | none => n

/-- `newTrieNode`, entered into the children of its parent. -/
def newTrieNode (h : NameTrie κ V) (key : κ) (parent : ℕ) : NameTrie κ V where
  next := h.next + 1
  up := update h.up h.next (some (key, parent))
  dep := update h.dep h.next (h.dep parent + 1)
  chd := update (update h.chd h.next ∅) parent ((h.chd parent).insert key h.next)
  val := update h.val h.next default

/-- `MatchAlways`. -/
def matchAlways : NameTrie κ V → ℕ → List κ → NameTrie κ V × ℕ
  | h, n, [] => (h, n)
  | h, n, c :: cs =>
    match (h.chd n).lookup c with
    | some ch => matchAlways h ch cs
    | none => matchAlways (h.newTrieNode c n) h.next cs

-- The instance for lists of pairs computes.
local instance decidableNoChildren (chd : AList fun _ : κ => ℕ) : Decidable (chd = ∅) :=
  decidable_of_iff (chd.entries = (∅ : AList fun _ : κ => ℕ).entries) AList.ext_iff.symm

/-- A node gives up its children and is deleted from those of its parent. -/
def unlink (h : NameTrie κ V) (n : ℕ) (key : κ) (parent : ℕ) : NameTrie κ V :=
  let chd := update h.chd n ∅
  { h with chd := update chd parent ((chd parent).erase key) }

/-- `PruneIf`; the way up to the root is `depth` nodes long. -/
def pruneUp (pred : V → Bool) : (depth : ℕ) → NameTrie κ V → ℕ → NameTrie κ V
  | 0, h, _ => h
  | depth + 1, h, n =>
    match h.up n with
    | none => h
    | some (key, parent) =>
      if h.chd n ≠ ∅ ∨ !pred (h.val n) then h
      else pruneUp pred depth (h.unlink n key parent) parent

/-- `PruneIf`. -/
def pruneIf (h : NameTrie κ V) (n : ℕ) (pred : V → Bool) : NameTrie κ V :=
  pruneUp pred (h.dep n) h n

/-- `Prune`. -/
def prune (h : NameTrie κ V) (n : ℕ) : NameTrie κ V := h.pruneIf n fun _ => true

/-- The parents of a node, up to the root. -/
def parents (h : NameTrie κ V) : (depth : ℕ) → ℕ → List ℕ
  | 0, _ => []
  | depth + 1, n =>
    match h.up n with
    | none => []
    | some (_, parent) => parent :: h.parents depth parent

/-- The nodes that a loop over `Parent` visits. -/
def upwards (h : NameTrie κ V) (n : ℕ) : List ℕ := n :: h.parents (h.dep n) n

/-! ### Every heap -/

/-- The node is the root, or was made for these components. -/
inductive Named (up : ℕ → Option (κ × ℕ)) : ℕ → List κ → Prop
  | root : Named up 0 []
  | child {n p : ℕ} {c : κ} {name : List κ} : up n = some (c, p) → Named up p name →
      Named up n (name ++ [c])

/-- Parents are older than their children, and children know their parents. -/
structure Ok (h : NameTrie κ V) : Prop where
  pos : 0 < h.next
  root : h.up 0 = none
  dep_root : h.dep 0 = 0
  link : ∀ n < h.next, n ≠ 0 → ∃ c p, h.up n = some (c, p) ∧ p < n ∧ h.dep n = h.dep p + 1
  child : ∀ {n c m}, (h.chd n).lookup c = some m → m < h.next ∧ h.up m = some (c, n)
  fresh : ∀ n, h.next ≤ n → h.val n = default ∧ h.up n = none

variable {h h' : NameTrie κ V} {n m p : ℕ} {c : κ} {name name' : List κ} {pred : V → Bool}

lemma ok_new : (new : NameTrie κ V).Ok where
  pos := one_pos
  root := rfl
  dep_root := rfl
  link := fun n hn hne => absurd (lt_one_iff.mp hn) hne
  child := fun hlookup => by
    rw [new, lookup_empty] at hlookup
    cases hlookup
  fresh := fun _ _ => ⟨rfl, rfl⟩

lemma Ok.of_up (hok : h.Ok) (hup : h.up n = some (c, p)) :
    n < h.next ∧ p < n ∧ h.dep n = h.dep p + 1 := by
  have hn : n < h.next := by
    by_contra hge
    rw [(hok.fresh n (not_lt.mp hge)).2] at hup
    cases hup
  have hne : n ≠ 0 := by
    rintro rfl
    rw [hok.root] at hup
    cases hup
  obtain ⟨c', p', hup', hlt, hdep⟩ := hok.link n hn hne
  rw [hup] at hup'
  obtain ⟨rfl, rfl⟩ := Prod.mk.inj (some.inj hup')
  exact ⟨hn, hlt, hdep⟩

omit [DecidableEq κ] in
lemma eq_empty_of_lookup [DecidableEq κ] {chd : AList fun _ : κ => ℕ}
    (hnone : ∀ c, chd.lookup c = none) : chd = ∅ := by
  have hmem : ∀ c, c ∉ chd := fun c => lookup_eq_none.mp (hnone c)
  refine ext (eq_nil_iff_forall_not_mem.mpr fun e he => hmem e.1 ?_)
  exact mem_keys_of_mem he

lemma Ok.chd_fresh (hok : h.Ok) (hn : h.next ≤ n) : h.chd n = ∅ := by
  refine eq_empty_of_lookup fun c => eq_none_iff_forall_not_mem.mpr fun m hm => ?_
  obtain ⟨hlt, hup⟩ := hok.child hm
  exact absurd (hok.of_up hup).2.1 (by omega)

lemma Ok.setValue (hok : h.Ok) (hn : n < h.next) (v : V) : (h.setValue n v).Ok :=
  { hok with
    fresh := fun k hk => by
      have hne : k ≠ n := (hn.trans_le hk).ne'
      exact ⟨(update_of_ne hne _ _).trans (hok.fresh k hk).1, (hok.fresh k hk).2⟩ }

/-! ### New nodes -/

lemma lookup_newTrieNode (hok : h.Ok) (hp : p < h.next) {c' : κ} :
    ((h.newTrieNode c p).chd n).lookup c'
      = if n = p ∧ c' = c then some h.next else (h.chd n).lookup c' := by
  change (update (update h.chd h.next ∅) p _ n).lookup c' = _
  rcases eq_or_ne n p with rfl | hne
  · rw [update_self]
    rcases eq_or_ne c' c with rfl | hc
    · rw [if_pos ⟨rfl, rfl⟩, lookup_insert]
    · rw [if_neg fun heq => hc heq.2, lookup_insert_ne hc]
  · rw [update_of_ne hne, if_neg fun heq => hne heq.1]
    rcases eq_or_ne n h.next with rfl | hnext
    · rw [update_self, hok.chd_fresh le_rfl]
    · rw [update_of_ne hnext]

lemma Ok.newTrieNode (hok : h.Ok) (hp : p < h.next) (c : κ) : (h.newTrieNode c p).Ok := by
  have hold : ∀ k < h.next, (h.newTrieNode c p).up k = h.up k
      ∧ (h.newTrieNode c p).dep k = h.dep k := fun k hk =>
    ⟨update_of_ne hk.ne _ _, update_of_ne hk.ne _ _⟩
  constructor
  case pos => exact succ_pos _
  case root => rw [(hold 0 hok.pos).1, hok.root]
  case dep_root => rw [(hold 0 hok.pos).2, hok.dep_root]
  case link =>
    intro n hn hne
    rcases eq_or_ne n h.next with rfl | hlast
    · refine ⟨c, p, update_self _ _ _, hp, ?_⟩
      rw [(hold p hp).2]
      exact update_self _ _ _
    · have hn : n < h.next := lt_of_le_of_ne (Nat.lt_succ_iff.mp hn) hlast
      obtain ⟨c', p', hup, hlt, hdep⟩ := hok.link n hn hne
      exact ⟨c', p', (hold n hn).1.trans hup, hlt, by
        rw [(hold n hn).2, (hold p' (hlt.trans hn)).2, hdep]⟩
  case child =>
    intro n c' m hm
    rw [lookup_newTrieNode hok hp] at hm
    split_ifs at hm with hnew
    · obtain ⟨rfl, rfl⟩ := hnew
      obtain rfl := some.inj hm
      exact ⟨lt_succ_self _, update_self _ _ _⟩
    · obtain ⟨hlt, hup⟩ := hok.child hm
      exact ⟨lt_succ_of_lt hlt, (hold m hlt).1.trans hup⟩
  case fresh =>
    intro n hn
    have hne : n ≠ h.next := fun heq => absurd hn (by rw [heq]; exact not_succ_le_self _)
    have hold' := hok.fresh n (le_of_succ_le hn)
    exact ⟨(update_of_ne hne _ _).trans hold'.1, (update_of_ne hne _ _).trans hold'.2⟩

/-- Nodes are added: those that were there keep their links and values. -/
structure Grows (h h' : NameTrie κ V) : Prop where
  next : h.next ≤ h'.next
  up : ∀ n < h.next, h'.up n = h.up n
  val : h'.val = h.val
  lookup : ∀ {n c m}, (h.chd n).lookup c = some m → (h'.chd n).lookup c = some m

omit [Inhabited V] in
lemma Grows.refl {h : NameTrie κ V} : Grows h h := ⟨le_rfl, fun _ _ => rfl, rfl, id⟩

omit [Inhabited V] in
lemma Grows.trans {h'' : NameTrie κ V} (h₁ : Grows h h') (h₂ : Grows h' h'') : Grows h h'' where
  next := h₁.next.trans h₂.next
  up := fun n hn => (h₂.up n (hn.trans_le h₁.next)).trans (h₁.up n hn)
  val := h₂.val.trans h₁.val
  lookup := fun hm => h₂.lookup (h₁.lookup hm)

lemma grows_newTrieNode (hok : h.Ok) (hp : p < h.next) (hnone : (h.chd p).lookup c = none) :
    Grows h (h.newTrieNode c p) where
  next := le_succ _
  up := fun n hn => update_of_ne hn.ne _ _
  val := by
    change update h.val h.next default = h.val
    rw [← (hok.fresh h.next le_rfl).1, update_eq_self]
  lookup := fun hm => by
    rw [lookup_newTrieNode hok hp, if_neg]
    · exact hm
    · rintro ⟨rfl, rfl⟩
      rw [hnone] at hm
      cases hm

lemma Grows.named (hgrows : Grows h h') (hok : h.Ok) (hn : n < h.next)
    (hnamed : Named h.up n name) : Named h'.up n name := by
  induction hnamed with
  | root => exact .root
  | child hup _ ih =>
    obtain ⟨hlt, hp, -⟩ := hok.of_up hup
    exact .child ((hgrows.up _ hlt).trans hup) (ih (hp.trans hlt))

/-- A node that is the child of its parent under its key, or the root. -/
def Linked (h : NameTrie κ V) (n : ℕ) : Prop :=
  n = 0 ∨ ∃ c p, h.up n = some (c, p) ∧ (h.chd p).lookup c = some n

lemma Grows.linked (hgrows : Grows h h') (hok : h.Ok) (hlinked : h.Linked n) : h'.Linked n := by
  rcases hlinked with rfl | ⟨c, p, hup, hlookup⟩
  · exact .inl rfl
  · exact .inr ⟨c, p, (hgrows.up n (hok.of_up hup).1).trans hup, hgrows.lookup hlookup⟩

lemma linked_of_lookup (hok : h.Ok) (hm : (h.chd n).lookup c = some m) : h.Linked m :=
  .inr ⟨c, n, (hok.child hm).2, hm⟩

/-- Nodes that are not linked are empty. -/
def GoneEmpty (h : NameTrie κ V) : Prop := ∀ n, ¬ h.Linked n → h.val n = default ∧ h.chd n = ∅

lemma goneEmpty_newTrieNode (hok : h.Ok) (hp : p < h.next) (hnone : (h.chd p).lookup c = none)
    (hempty : h.GoneEmpty) (hlinked : h.Linked p) : (h.newTrieNode c p).GoneEmpty := by
  have hgrows := grows_newTrieNode hok hp hnone
  intro n hn
  have hold : ¬ h.Linked n := fun hl => hn (hgrows.linked hok hl)
  have hne : n ≠ p := by
    rintro rfl
    exact hold hlinked
  refine ⟨?_, eq_empty_of_lookup fun c' => ?_⟩
  · rw [hgrows.val]
    exact (hempty n hold).1
  · rw [lookup_newTrieNode hok hp, if_neg fun heq => hne heq.1, (hempty n hold).2, lookup_empty]

/-- What `MatchAlways` does from a node on. -/
structure Matches (h : NameTrie κ V) (n : ℕ) (name : List κ) (found : NameTrie κ V × ℕ) : Prop where
  ok : found.1.Ok
  grows : Grows h found.1
  lt : found.2 < found.1.next
  named : ∀ {start}, Named h.up n start → Named found.1.up found.2 (start ++ name)
  linked : h.Linked n → found.1.Linked found.2
  goneEmpty : h.GoneEmpty → h.Linked n → found.1.GoneEmpty

/-- **`MatchAlways` finds or makes the node of a name.** -/
lemma matchAlways_spec (name : List κ) : ∀ {h : NameTrie κ V} {n : ℕ}, h.Ok → n < h.next →
    Matches h n name (h.matchAlways n name) := by
  induction name with
  | nil =>
    intro h n hok hn
    exact ⟨hok, .refl, hn, fun hnamed => by rwa [append_nil], id, fun he _ => he⟩
  | cons c cs ih =>
    intro h n hok hn
    rw [matchAlways]
    cases hlookup : (h.chd n).lookup c with
    | some ch =>
      obtain ⟨hlt, hup⟩ := hok.child hlookup
      have hlinked := linked_of_lookup hok hlookup
      obtain ⟨hok', hgrows, hlt', hnamed, hlinked', hempty⟩ := ih hok hlt
      refine ⟨hok', hgrows, hlt', fun hstart => ?_, fun _ => hlinked' hlinked,
        fun he _ => hempty he hlinked⟩
      have hchild := hnamed (.child hup hstart)
      rwa [append_assoc] at hchild
    | none =>
      have hgrows := grows_newTrieNode hok hn hlookup
      have hok' := hok.newTrieNode hn c
      have hlookup' : ((h.newTrieNode c n).chd n).lookup c = some h.next := by
        rw [lookup_newTrieNode hok hn, if_pos ⟨rfl, rfl⟩]
      have hlinked := linked_of_lookup hok' hlookup'
      obtain ⟨hok'', hgrows', hlt', hnamed, hlinked', hempty⟩ := ih hok' (lt_succ_self h.next)
      refine ⟨hok'', hgrows.trans hgrows', hlt', fun hstart => ?_, fun _ => hlinked' hlinked,
        fun he hl => hempty (goneEmpty_newTrieNode hok hn hlookup he hl) hlinked⟩
      have hchild := hnamed (.child (hok'.child hlookup').2 (hgrows.named hok hn hstart))
      rwa [append_assoc] at hchild

/-! ### Lookups -/

section

omit [Inhabited V]

lemma exactMatch_append (n : ℕ) (name rest : List κ) :
    h.exactMatch n (name ++ rest) = (h.exactMatch n name).bind fun m => h.exactMatch m rest := by
  induction name generalizing n with
  | nil => rfl
  | cons c cs ih =>
    rw [cons_append, exactMatch, exactMatch]
    cases (h.chd n).lookup c with
    | some ch => exact ih ch
    | none => rfl

lemma prefixMatch_append {name : List κ} (hmatch : h.exactMatch n name = some m)
    (rest : List κ) : h.prefixMatch n (name ++ rest) = h.prefixMatch m rest := by
  induction name generalizing n with
  | nil =>
    obtain rfl := some.inj hmatch
    rfl
  | cons c cs ih =>
    rw [exactMatch] at hmatch
    rw [cons_append, prefixMatch]
    cases hlookup : (h.chd n).lookup c with
    | some ch =>
      rw [hlookup] at hmatch
      exact ih hmatch
    | none =>
      rw [hlookup] at hmatch
      cases hmatch

/-- What passes from a node to its children passes to every node that is found. -/
lemma prefixMatch_induction {I : ℕ → Prop}
    (hstep : ∀ {n c m}, I n → (h.chd n).lookup c = some m → I m) (hn : I n) {name : List κ} :
    I (h.prefixMatch n name) := by
  induction name generalizing n with
  | nil => exact hn
  | cons c cs ih =>
    rw [prefixMatch]
    cases hlookup : (h.chd n).lookup c with
    | some ch => exact ih (hstep hn hlookup)
    | none => exact hn

end

/-- A node of the tree. -/
def InTree (h : NameTrie κ V) (n : ℕ) : Prop := n < h.next ∧ h.Linked n

lemma Ok.inTree_root (hok : h.Ok) : h.InTree 0 := ⟨hok.pos, .inl rfl⟩

lemma Ok.inTree_child (hok : h.Ok) (hlookup : (h.chd n).lookup c = some m) : h.InTree m :=
  ⟨(hok.child hlookup).1, linked_of_lookup hok hlookup⟩

lemma inTree_prefixMatch (hok : h.Ok) (name : List κ) : h.InTree (h.prefixMatch 0 name) :=
  prefixMatch_induction (I := h.InTree) (fun _ hm => hok.inTree_child hm) hok.inTree_root

lemma inTree_exactMatch (hok : h.Ok) (hmatch : h.exactMatch 0 name = some m) : h.InTree m := by
  have hfound : h.prefixMatch 0 (name ++ []) = m := prefixMatch_append hmatch []
  rw [← hfound]
  exact inTree_prefixMatch hok _

/-- The parent of a linked node is linked. -/
lemma linked_parent (hempty : h.GoneEmpty) (hlookup : (h.chd p).lookup c = some n) :
    h.Linked p := by
  by_contra hout
  rw [(hempty p hout).2, lookup_empty] at hlookup
  cases hlookup

/-- **A linked node is found by its name.** -/
lemma exactMatch_of_linked (hok : h.Ok) (hempty : h.GoneEmpty) (hnamed : Named h.up n name)
    (hlinked : h.Linked n) : h.exactMatch 0 name = some n := by
  induction hnamed with
  | root => rfl
  | @child n p c name hup _ ih =>
    rcases hlinked with rfl | ⟨c', p', hup', hlookup⟩
    · rw [hok.root] at hup
      cases hup
    · rw [hup] at hup'
      obtain ⟨rfl, rfl⟩ := Prod.mk.inj (some.inj hup')
      rw [exactMatch_append, ih (linked_parent hempty hlookup), bind_some, exactMatch, hlookup]
      rfl

/-! ### Pruning -/

/-- Links go, and nothing else changes. -/
structure Shrinks (h h' : NameTrie κ V) : Prop where
  next : h'.next = h.next
  up : h'.up = h.up
  dep : h'.dep = h.dep
  val : h'.val = h.val
  lookup : ∀ {n c m}, (h'.chd n).lookup c = some m → (h.chd n).lookup c = some m

section

omit [Inhabited V]

lemma Shrinks.refl (h : NameTrie κ V) : Shrinks h h := ⟨rfl, rfl, rfl, rfl, id⟩

lemma Shrinks.trans {h'' : NameTrie κ V} (h₁ : Shrinks h h') (h₂ : Shrinks h' h'') :
    Shrinks h h'' where
  next := h₂.next.trans h₁.next
  up := h₂.up.trans h₁.up
  dep := h₂.dep.trans h₁.dep
  val := h₂.val.trans h₁.val
  lookup := fun hm => h₁.lookup (h₂.lookup hm)

lemma chd_unlink_parent (hne : p ≠ n) : (h.unlink n c p).chd p = (h.chd p).erase c := by
  rw [unlink]
  dsimp only
  rw [update_self, update_of_ne hne]

lemma chd_unlink_of_ne (hn : m ≠ n) (hp : m ≠ p) : (h.unlink n c p).chd m = h.chd m := by
  rw [unlink]
  dsimp only
  rw [update_of_ne hp, update_of_ne hn]

lemma lookup_unlink (hchd : h.chd n = ∅) {m : ℕ} {c' : κ} :
    ((h.unlink n c p).chd m).lookup c'
      = if m = p ∧ c' = c then none else (h.chd m).lookup c' := by
  have hsame : update h.chd n ∅ = h.chd := by rw [← hchd, update_eq_self]
  change (update (update h.chd n ∅) p _ m).lookup c' = _
  rw [hsame]
  rcases eq_or_ne m p with rfl | hne
  · rw [update_self]
    rcases eq_or_ne c' c with rfl | hc
    · rw [if_pos ⟨rfl, rfl⟩, lookup_erase]
    · rw [if_neg fun heq => hc heq.2, lookup_erase_ne hc]
  · rw [update_of_ne hne, if_neg fun heq => hne heq.1]

lemma shrinks_unlink (hchd : h.chd n = ∅) : Shrinks h (h.unlink n c p) :=
  ⟨rfl, rfl, rfl, rfl, fun hm => by
    rw [lookup_unlink hchd] at hm
    split_ifs at hm
    exact hm⟩

/-- One step of `PruneIf`. -/
lemma pruneUp_succ (depth : ℕ) (h : NameTrie κ V) (n : ℕ) :
    pruneUp pred (depth + 1) h n = h
      ∨ ∃ c p, h.up n = some (c, p) ∧ h.chd n = ∅ ∧ pred (h.val n) = true
        ∧ pruneUp pred (depth + 1) h n = pruneUp pred depth (h.unlink n c p) p := by
  rw [pruneUp]
  cases hup : h.up n with
  | none => exact .inl rfl
  | some link =>
    obtain ⟨c, p⟩ := link
    dsimp only
    split_ifs with hkeep
    · exact .inl rfl
    · rw [not_or, not_not] at hkeep
      exact .inr ⟨c, p, rfl, hkeep.1, by simpa using hkeep.2, rfl⟩

lemma shrinks_pruneUp (depth : ℕ) (h : NameTrie κ V) (n : ℕ) :
    Shrinks h (pruneUp pred depth h n) := by
  induction depth generalizing h n with
  | zero => exact .refl h
  | succ depth ih =>
    rcases pruneUp_succ depth h n with heq | ⟨c, p, -, hchd, -, heq⟩
    · rw [heq]
      exact .refl h
    · rw [heq]
      exact (shrinks_unlink hchd).trans (ih _ p)

lemma shrinks_pruneIf (h : NameTrie κ V) (n : ℕ) (pred : V → Bool) :
    Shrinks h (h.pruneIf n pred) := shrinks_pruneUp _ h n

end

/-- A node that is empty goes. -/
lemma goneEmpty_unlink (hempty : h.GoneEmpty) (hup : h.up n = some (c, p)) (hchd : h.chd n = ∅)
    (hval : h.val n = default)
    (hplace : (h.chd p).lookup c = none ∨ (h.chd p).lookup c = some n) :
    (h.unlink n c p).GoneEmpty := by
  intro x hx
  have hnone : ∀ y, h.chd y = ∅ → (h.unlink n c p).chd y = ∅ := fun y hy =>
    eq_empty_of_lookup fun c' => by rw [lookup_unlink hchd, hy, lookup_empty, ite_self]
  rcases eq_or_ne x n with rfl | hne
  · exact ⟨hval, hnone x hchd⟩
  · have hold : ¬ h.Linked x := by
      rintro (rfl | ⟨c', p', hup', hlookup⟩)
      · exact hx (.inl rfl)
      · refine hx (.inr ⟨c', p', hup', ?_⟩)
        rw [lookup_unlink hchd, if_neg]
        · exact hlookup
        · rintro ⟨rfl, rfl⟩
          rw [hlookup] at hplace
          rcases hplace with hplace | hplace
          · cases hplace
          · exact hne (some.inj hplace)
    exact ⟨(hempty x hold).1, hnone x (hempty x hold).2⟩

/-- Every node that the walk up prunes is empty, and no other node has its place. -/
def PrunesEmpty (pred : V → Bool) : ℕ → NameTrie κ V → ℕ → Prop
  | 0, _, _ => True
  | depth + 1, h, n => ∀ c p, h.up n = some (c, p) → h.chd n = ∅ → pred (h.val n) = true →
      h.val n = default ∧ ((h.chd p).lookup c = none ∨ (h.chd p).lookup c = some n)
        ∧ PrunesEmpty pred depth (h.unlink n c p) p

/-- **Pruning keeps the nodes that are not linked empty.** -/
lemma goneEmpty_pruneUp {depth : ℕ} : ∀ {h : NameTrie κ V} {n : ℕ}, h.GoneEmpty →
    PrunesEmpty pred depth h n → (pruneUp pred depth h n).GoneEmpty := by
  induction depth with
  | zero => exact fun hempty _ => hempty
  | succ depth ih =>
    intro h n hempty hprunes
    rcases pruneUp_succ depth h n with heq | ⟨c, p, hup, hchd, hpred, heq⟩
    · rw [heq]
      exact hempty
    · obtain ⟨hval, hplace, hmore⟩ := hprunes c p hup hchd hpred
      rw [heq]
      exact ih (goneEmpty_unlink hempty hup hchd hval hplace) hmore

/-- Going up from a node, no other node has the place of one. -/
def Unreplaced (h : NameTrie κ V) : ℕ → ℕ → Prop
  | 0, _ => True
  | depth + 1, n =>
    match h.up n with
    | none => True
    | some (c, p) =>
      ((h.chd p).lookup c = none ∨ (h.chd p).lookup c = some n) ∧ h.Unreplaced depth p

/-- Going up from a node one of whose children goes, every node that is left without children is
empty. -/
def LoneEmpty (h : NameTrie κ V) : ℕ → κ → ℕ → Prop
  | 0, _, _ => True
  | depth + 1, c, n =>
    match h.up n with
    | none => True
    | some (c', p) => (h.chd n).erase c = ∅ → h.val n = default ∧ h.LoneEmpty depth c' p

/-- The node may go when its value is taken out: with it go only empty nodes. -/
def MayGo (h : NameTrie κ V) (n : ℕ) : Prop :=
  match h.up n with
  | none => True
  | some (c, p) => h.chd n = ∅ → h.LoneEmpty (h.dep p) c p

lemma unreplaced_of_linked (hok : h.Ok) (hempty : h.GoneEmpty) (hlinked : h.Linked n)
    (depth : ℕ) : h.Unreplaced depth n := by
  induction depth generalizing n with
  | zero => trivial
  | succ depth ih =>
    rw [Unreplaced]
    rcases hlinked with rfl | ⟨c, p, hup, hlookup⟩
    · rw [hok.root]
      trivial
    · rw [hup]
      exact ⟨.inr hlookup, ih (linked_parent hempty hlookup)⟩

omit [Inhabited V] in
lemma Unreplaced.mono {depth : ℕ} (hplace : h.Unreplaced depth n) (hup' : h'.up = h.up)
    (hless : ∀ {n c m}, (h'.chd n).lookup c = some m → (h.chd n).lookup c = some m) :
    h'.Unreplaced depth n := by
  induction depth generalizing n with
  | zero => trivial
  | succ depth ih =>
    rw [Unreplaced] at hplace ⊢
    rw [hup']
    cases hup : h.up n with
    | none => trivial
    | some link =>
      obtain ⟨c, p⟩ := link
      rw [hup] at hplace
      refine ⟨?_, ih hplace.2⟩
      cases hlookup : (h'.chd p).lookup c with
      | none => exact .inl rfl
      | some m =>
        rcases hplace.1 with hnone | hsome
        · rw [hless hlookup] at hnone
          cases hnone
        · rw [hless hlookup] at hsome
          exact .inr hsome

/-- `PruneIf` with a predicate that only empty nodes meet. -/
lemma prunesEmpty_of_unreplaced (hpred : ∀ v, pred v = true → v = default) {depth : ℕ} :
    ∀ {h : NameTrie κ V} {n : ℕ}, h.Unreplaced depth n → PrunesEmpty pred depth h n := by
  induction depth with
  | zero => exact fun _ => trivial
  | succ depth ih =>
    intro h n hplace c p hup hchd hval
    rw [Unreplaced, hup] at hplace
    exact ⟨hpred _ hval, hplace.1, ih (hplace.2.mono rfl (shrinks_unlink hchd).lookup)⟩

/-- `Prune`, above a node that has gone: `h₀` is the heap before. -/
lemma prunesEmpty_of_loneEmpty {depth : ℕ} : ∀ {h h₀ : NameTrie κ V} {n : ℕ} {c : κ}, h₀.Ok →
    h.up = h₀.up → (∀ m ≤ n, h.val m = h₀.val m) → (∀ m < n, h.chd m = h₀.chd m) →
    h.chd n = (h₀.chd n).erase c → h₀.LoneEmpty depth c n → h.Unreplaced depth n →
    PrunesEmpty pred depth h n := by
  induction depth with
  | zero => exact fun _ _ _ _ _ _ _ => trivial
  | succ depth ih =>
    intro h h₀ n c hok hup hval hbelow hself hlone hplace c' p hup' hchd _
    have hlt : p < n := (hok.of_up (hup ▸ hup')).2.1
    rw [Unreplaced, hup'] at hplace
    rw [LoneEmpty, ← hup, hup'] at hlone
    obtain ⟨hempty, hmore⟩ := hlone (hself ▸ hchd)
    refine ⟨(hval n le_rfl).trans hempty, hplace.1, ih hok hup ?_ ?_ ?_ hmore
      (hplace.2.mono rfl (shrinks_unlink hchd).lookup)⟩
    · exact fun m hm => hval m (hm.trans hlt.le)
    · intro m hm
      rw [chd_unlink_of_ne (hm.trans hlt).ne hm.ne, hbelow m (hm.trans hlt)]
    · rw [chd_unlink_parent hlt.ne, hbelow p hlt]

/-- **`Prune` takes out a node of the tree, if with it go only empty nodes.** -/
lemma goneEmpty_prune (hok : h.Ok) (hempty : h.GoneEmpty) (hin : h.InTree n) (hgo : h.MayGo n) :
    ((h.setValue n default).prune n).GoneEmpty := by
  have hok' := hok.setValue hin.1 default
  have hempty' : (h.setValue n default).GoneEmpty := by
    intro m hm
    refine ⟨?_, (hempty m hm).2⟩
    change update h.val n default m = default
    rcases eq_or_ne m n with rfl | hne
    · rw [update_self]
    · rw [update_of_ne hne]
      exact (hempty m hm).1
  refine goneEmpty_pruneUp hempty' ?_
  change PrunesEmpty _ (h.dep n) (h.setValue n default) n
  cases hdep : h.dep n with
  | zero => trivial
  | succ depth =>
    intro c p hup hchd _
    have hup₀ : h.up n = some (c, p) := hup
    obtain ⟨-, hlt, hdep'⟩ := hok.of_up hup₀
    obtain rfl : depth = h.dep p := by omega
    have hplace := unreplaced_of_linked hok' hempty' hin.2 (h.dep p + 1)
    rw [Unreplaced, hup] at hplace
    rw [MayGo, hup₀] at hgo
    refine ⟨update_self _ _ _, hplace.1, ?_⟩
    refine prunesEmpty_of_loneEmpty hok rfl (fun m hm => ?_) (fun m hm => ?_) ?_ (hgo hchd)
      (hplace.2.mono rfl (shrinks_unlink hchd).lookup)
    · exact update_of_ne (hm.trans_lt hlt).ne _ _
    · rw [chd_unlink_of_ne (hm.trans hlt).ne hm.ne]
      rfl
    · rw [chd_unlink_parent hlt.ne]
      rfl

/-! ### The way up -/

lemma upwards_child (hok : h.Ok) (hup : h.up m = some (c, p)) : h.upwards m = m :: h.upwards p := by
  rw [upwards, (hok.of_up hup).2.2, parents, hup]
  rfl

omit [DecidableEq κ] [Inhabited V] in
lemma upwards_root (hup : h.up n = none) : h.upwards n = [n] := by
  rw [upwards]
  cases h.dep n with
  | zero => rfl
  | succ depth => rw [parents, hup]

/-- The way up leads to older and older nodes. -/
lemma pairwise_upwards (hok : h.Ok) : (h.upwards n).Pairwise (· > ·) := by
  induction n using Nat.strong_induction_on with
  | _ n ih =>
    cases hup : h.up n with
    | none =>
      rw [upwards_root hup]
      exact pairwise_singleton _ n
    | some link =>
      obtain ⟨c, p⟩ := link
      have hlt := (hok.of_up hup).2.1
      have hup' := pairwise_cons.mp (ih p hlt)
      rw [upwards_child hok hup]
      refine pairwise_cons.mpr ⟨forall_mem_cons.mpr ⟨hlt, fun m hm => ?_⟩, ih p hlt⟩
      exact (hup'.1 m hm).trans hlt

lemma le_of_mem_upwards (hok : h.Ok) : ∀ m ∈ h.upwards n, m ≤ n :=
  forall_mem_cons.mpr ⟨le_rfl, fun m hm => ((pairwise_cons.mp (pairwise_upwards hok)).1 m hm).le⟩

/-- From the longest match the way up leads through every node that matches. -/
lemma mem_upwards_prefixMatch (hok : h.Ok) (hmatch : h.exactMatch 0 name = some n)
    {rest : List κ} : n ∈ h.upwards (h.prefixMatch 0 (name ++ rest)) := by
  rw [prefixMatch_append hmatch]
  refine prefixMatch_induction (I := fun m => n ∈ h.upwards m) (fun {m c ch} hm hlookup => ?_)
    mem_cons_self
  rw [upwards_child hok (hok.child hlookup).2]
  exact mem_cons_of_mem ch hm

instance decidableUnreplaced (h : NameTrie κ V) : ∀ depth n, Decidable (h.Unreplaced depth n)
  | 0, _ => isTrue trivial
  | depth + 1, n =>
    match hup : h.up n with
    | none => isTrue (by rw [Unreplaced, hup]; trivial)
    | some (c, p) =>
      have := decidableUnreplaced h depth p
      decidable_of_iff
        (((h.chd p).lookup c = none ∨ (h.chd p).lookup c = some n) ∧ h.Unreplaced depth p)
        (by rw [Unreplaced, hup])

instance decidableLoneEmpty [DecidableEq V] (h : NameTrie κ V) :
    ∀ depth c n, Decidable (h.LoneEmpty depth c n)
  | 0, _, _ => isTrue trivial
  | depth + 1, c, n =>
    match hup : h.up n with
    | none => isTrue (by rw [LoneEmpty, hup]; trivial)
    | some (c', p) =>
      have := decidableLoneEmpty h depth c' p
      decidable_of_iff
        ((h.chd n).erase c = ∅ → h.val n = default ∧ h.LoneEmpty depth c' p)
        (by rw [LoneEmpty, hup])

instance decidableMayGo [DecidableEq V] (h : NameTrie κ V) (n : ℕ) : Decidable (h.MayGo n) :=
  match hup : h.up n with
  | none => isTrue (by rw [MayGo, hup]; trivial)
  | some (c, p) =>
    decidable_of_iff (h.chd n = ∅ → h.LoneEmpty (h.dep p) c p) (by rw [MayGo, hup])

end NameTrie

end Mars
