import Mathlib.Data.Finmap

/-!
Finite maps, as association lists with distinct keys, with what Mathlib does not have for them.

* `size`: the number of keys; `size_insert_of_notMem`, `size_erase_of_mem`;
* `mapVals`, `modify`: change all values, or the value of one key;
* `filterMap_entries`: at most one entry is under a key;
* `count`: the number of entries that meet a condition; `count_insert`, `count_erase` and
  `count_modify` say what an update takes away and what it adds.
-/

/-- A finite map from `κ` to `α`. -/
abbrev FinMap (κ α : Type*) := AList fun _ : κ => α

namespace AList

open List

variable {κ α β : Type*} {k : κ} {f : κ → α → β}

/-- The number of keys. -/
def size (m : FinMap κ α) : ℕ := m.keys.length

/-- Change every value, given its key. -/
def mapVals (f : κ → α → β) (m : FinMap κ α) : FinMap κ β where
  entries := m.entries.map fun e => ⟨e.1, f e.1 e.2⟩
  nodupKeys := by
    have hkeys : List.keys (m.entries.map fun e => (⟨e.1, f e.1 e.2⟩ : Sigma fun _ : κ => β))
        = List.keys m.entries := by
      simp only [List.keys, List.map_map]
      rfl
    rw [List.NodupKeys, hkeys]
    exact m.nodupKeys

variable (p : κ → α → Bool)

/-- The number of entries that meet `p`. -/
def count (m : FinMap κ α) : ℕ := m.entries.countP fun e => p e.1 e.2

@[simp] lemma keys_mapVals {m : FinMap κ α} : (m.mapVals f).keys = m.keys := by
  simp only [keys, mapVals, List.keys, List.map_map]
  rfl

variable {m : FinMap κ α}

@[simp] lemma mem_mapVals : k ∈ m.mapVals f ↔ k ∈ m := by
  rw [mem_keys, mem_keys, keys_mapVals]

@[simp] lemma size_empty : size (∅ : FinMap κ α) = 0 := rfl

lemma size_eq_zero : m.size = 0 ↔ m = ∅ := by
  constructor
  · intro h
    have hkeys : m.keys = [] := length_eq_zero_iff.mp h
    exact AList.ext (map_eq_nil_iff.mp hkeys)
  · rintro rfl
    rfl

@[simp] lemma count_mapVals {p : κ → β → Bool} {m : FinMap κ α} :
    (m.mapVals f).count p = m.count fun k v => p k (f k v) := by
  rw [count, count, mapVals, countP_map]
  rfl

variable [DecidableEq κ]

/-- Change the value of `k`, if it has one. -/
def modify (k : κ) (f : α → α) (m : FinMap κ α) : FinMap κ α :=
  m.mapVals fun k' v => if k' = k then f v else v

lemma lookup_insert_eq {k' : κ} {v : α} {m : FinMap κ α} :
    (m.insert k v).lookup k' = if k' = k then some v else m.lookup k' := by
  by_cases h : k' = k
  · rw [h, if_pos rfl, lookup_insert]
  · rw [if_neg h, lookup_insert_ne h]

lemma lookup_erase_eq {k' : κ} {m : FinMap κ α} :
    (m.erase k).lookup k' = if k' = k then none else m.lookup k' := by
  by_cases h : k' = k
  · rw [h, if_pos rfl, lookup_erase]
  · rw [if_neg h, lookup_erase_ne h]

@[simp] lemma lookup_mapVals {m : FinMap κ α} :
    (m.mapVals f).lookup k = (m.lookup k).map (f k) := by
  obtain ⟨entries, hnodup⟩ := m
  induction entries with
  | nil => rfl
  | cons e entries ih =>
    simp only [lookup, mapVals, map_cons] at ih ⊢
    by_cases h : e.1 = k
    · subst h
      rw [dlookup_cons_eq, dlookup_cons_eq]
      rfl
    · rw [dlookup_cons_ne _ (⟨e.1, f e.1 e.2⟩ : Sigma fun _ : κ => β) (Ne.symm h),
        dlookup_cons_ne _ e (Ne.symm h)]
      exact ih (nodupKeys_cons.mp hnodup).2

lemma lookup_modify {k' : κ} {f : α → α} {m : FinMap κ α} :
    (m.modify k f).lookup k' = if k' = k then (m.lookup k).map f else m.lookup k' := by
  rw [modify, lookup_mapVals]
  split_ifs with h
  · rw [h]
  · exact congrFun Option.map_id (m.lookup k')

lemma modify_id {m : FinMap κ α} : m.modify k id = m := by
  refine AList.ext ?_
  simp [modify, mapVals]

lemma modify_modify {f g : α → α} {m : FinMap κ α} :
    (m.modify k f).modify k g = m.modify k (g ∘ f) := by
  simp only [modify, mapVals, map_map]
  congr 2
  funext e
  by_cases h : e.1 = k <;> simp [h]

@[simp] lemma mem_modify {k' : κ} {f : α → α} : k' ∈ m.modify k f ↔ k' ∈ m :=
  mem_mapVals

lemma mem_iff_lookup : k ∈ m ↔ ∃ v, m.lookup k = some v := by
  rw [← lookup_isSome, Option.isSome_iff_exists]

/-- The entries under one key. -/
lemma filterMap_entries {γ : Type*} {m : FinMap κ α} {g : α → Option γ} :
    m.entries.filterMap (fun e => if e.1 = k then g e.2 else none)
      = ((m.lookup k).bind g).toList := by
  obtain ⟨entries, hnodup⟩ := m
  induction entries with
  | nil => rfl
  | cons e entries ih =>
    obtain ⟨hfresh, hrest⟩ := nodupKeys_cons.mp hnodup
    have ih := ih hrest
    simp only [lookup] at ih ⊢
    by_cases h : e.1 = k
    · subst h
      rw [dlookup_eq_none.mpr hfresh] at ih
      rw [filterMap_cons, ih, if_pos rfl, dlookup_cons_eq]
      cases hg : g e.2 <;> simp [hg]
    · rw [filterMap_cons, if_neg h, dlookup_cons_ne _ e (Ne.symm h)]
      exact ih

/-! ### Sizes -/

lemma size_insert_of_notMem {v : α} (h : k ∉ m) : size (m.insert k v) = m.size + 1 := by
  have hmem : k ∉ m.keys := h
  rw [size, keys_insert, length_cons, erase_of_not_mem hmem, size]

lemma size_erase_of_mem (h : k ∈ m) : size (m.erase k) + 1 = m.size := by
  have hmem : k ∈ m.keys := h
  rw [size, keys_erase, length_erase_of_mem hmem]
  exact Nat.succ_pred_eq_of_pos (length_pos_of_mem hmem)

/-! ### Counts -/

/-- Whether `k` has a value that meets `p`. -/
def holdsAt (k : κ) (m : FinMap κ α) : Bool := (m.lookup k).any (p k)

lemma count_erase (k : κ) (m : FinMap κ α) :
    count p (m.erase k) + (m.holdsAt p k).toNat = m.count p := by
  obtain ⟨entries, hnodup⟩ := m
  induction entries with
  | nil => rfl
  | cons e entries ih =>
    have hrest := (nodupKeys_cons.mp hnodup).2
    have ih := ih hrest
    simp only [count, erase, holdsAt, lookup] at ih ⊢
    by_cases h : k = e.1
    · subst h
      rw [kerase_cons_eq rfl, dlookup_cons_eq, countP_cons]
      cases hp : p e.1 e.2 <;> simp [hp]
    · rw [kerase_cons_ne h, dlookup_cons_ne _ _ h, countP_cons, countP_cons]
      omega

lemma count_insert (k : κ) (v : α) (m : FinMap κ α) :
    count p (m.insert k v) + (m.holdsAt p k).toNat = m.count p + (p k v).toNat := by
  have herase := count_erase p k m
  have hcons : count p (m.insert k v) = count p (m.erase k) + (p k v).toNat := by
    simp only [count, insert, erase, kinsert, countP_cons]
    cases p k v <;> simp
  omega

lemma count_erase_le {p : κ → α → Bool} {m : FinMap κ α} : count p (m.erase k) ≤ m.count p :=
  Nat.le_of_add_right_le (count_erase p k m).le

lemma count_insert_le {p : κ → α → Bool} {v : α} {m : FinMap κ α} :
    count p (m.insert k v) ≤ m.count p + (p k v).toNat :=
  Nat.le_of_add_right_le (count_insert p k v m).le

/-- A count does not see a condition that differs at an absent key only. -/
lemma count_erase_congr {p q : κ → α → Bool} (h : ∀ k' ≠ k, ∀ v, p k' v = q k' v) {m : FinMap κ α} :
    count p (m.erase k) = count q (m.erase k) := by
  refine countP_congr fun e he => ?_
  have hne : e.1 ≠ k := by
    rintro rfl
    exact (AList.mem_erase.mp (mem_keys_of_mem he)).1 rfl
  rw [h e.1 hne]

lemma count_modify (k : κ) (f : α → α) (m : FinMap κ α) :
    (m.modify k f).count p + (m.holdsAt p k).toNat
      = m.count p + (m.holdsAt (fun k v => p k (f v)) k).toNat := by
  rw [modify, count_mapVals]
  have hchanged := count_erase (fun k' v => p k' (if k' = k then f v else v)) k m
  have hheld : m.holdsAt (fun k' v => p k' (if k' = k then f v else v)) k
      = m.holdsAt (fun k v => p k (f v)) k := by
    simp only [holdsAt, if_true]
  have hsame : count (fun k' v => p k' (if k' = k then f v else v)) (m.erase k)
      = count p (m.erase k) := by
    refine count_erase_congr (fun k' hk' v => ?_)
    rw [if_neg hk']
  rw [hheld, hsame] at hchanged
  have hold := count_erase p k m
  omega

end AList
