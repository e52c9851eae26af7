import Mathlib.Data.List.Nodup

/-!
Lists with at most one element for each key.

* `find`: the first element with a key, the only one if keys are `Distinct` (`find_eq_some`);
* `upsert`: change the element with the key of a new one, or add the new one;
* `find_upsert`, `find_eraseP`, `find_filter`: what an update leaves under a key.
-/

namespace KeyedList

open List

variable {α κ : Type*} [DecidableEq κ] (key : α → κ)

/-- The first element with a key. -/
def find (l : List α) (k : κ) : Option α := l.find? fun a => key a = k

/-- No key occurs twice. -/
def Distinct (l : List α) : Prop := (l.map key).Nodup

/-- The first element with the key of `new` is changed, or `new` is added. -/
def upsert (new : α) (change : α → α) : List α → List α
  | [] => [new]
  | a :: l => if key a = key new then change a :: l else a :: upsert new change l

variable {key} {l : List α} {a new : α} {k k' : κ} {change : α → α}

@[simp] lemma find_nil : find key [] k = none := rfl

lemma find_cons : find key (a :: l) k = if key a = k then some a else find key l k := by
  rw [find, find?_cons]
  by_cases h : key a = k <;> simp [h, find]

lemma find_eq_none : find key l k = none ↔ k ∉ l.map key := by
  rw [find, find?_eq_none]
  simp only [decide_eq_true_eq, mem_map, not_exists, not_and]

lemma isSome_find : (find key l k).isSome ↔ k ∈ l.map key := by
  rw [← not_iff_not, ← find_eq_none, Option.not_isSome_iff_eq_none]

lemma find_map (f : α → α) (hf : ∀ a, key (f a) = key a) :
    find key (l.map f) k = (find key l k).map f := by
  induction l with
  | nil => rfl
  | cons a l ih =>
    rw [map_cons, find_cons, find_cons, hf, ih]
    split_ifs <;> rfl

omit [DecidableEq κ] in
lemma Distinct.map (hl : Distinct key l) (f : α → α) (hf : ∀ a, key (f a) = key a) :
    Distinct key (l.map f) := by
  have hkeys : key ∘ f = key := funext hf
  rw [Distinct, map_map, hkeys]
  exact hl

lemma mem_of_find (h : find key l k = some a) : a ∈ l ∧ key a = k :=
  ⟨mem_of_find?_eq_some h, by simpa using find?_some h⟩

lemma find_eq_some (hl : Distinct key l) : find key l k = some a ↔ a ∈ l ∧ key a = k := by
  refine ⟨mem_of_find, fun ⟨ha, hk⟩ => ?_⟩
  cases hfind : find key l k with
  | none => exact absurd (hk ▸ mem_map_of_mem ha) (find_eq_none.mp hfind)
  | some b =>
    obtain ⟨hb, hkb⟩ := mem_of_find hfind
    rw [inj_on_of_nodup_map hl hb ha (hkb.trans hk.symm)]

lemma find_filter (hl : Distinct key l) {p : α → Bool} :
    find key (l.filter p) k = (find key l k).filter p := by
  have hl' : Distinct key (l.filter p) := hl.sublist (filter_sublist.map key)
  ext a
  rw [find_eq_some hl', mem_filter, Option.filter_eq_some_iff, find_eq_some hl]
  exact ⟨fun ⟨⟨ha, hp⟩, hk⟩ => ⟨⟨ha, hk⟩, hp⟩, fun ⟨⟨ha, hk⟩, hp⟩ => ⟨⟨ha, hp⟩, hk⟩⟩

lemma find_upsert (hchange : ∀ a, key a = key new → key (change a) = key new) :
    find key (upsert key new change l) k
      = if key new = k then some ((find key l k).elim new change) else find key l k := by
  induction l with
  | nil =>
    rw [upsert, find_cons]
    rfl
  | cons a l ih =>
    rw [upsert]
    by_cases hkey : key a = key new
    · rw [if_pos hkey, find_cons, find_cons, hchange a hkey, hkey]
      split_ifs <;> rfl
    · rw [if_neg hkey, find_cons, find_cons, ih]
      by_cases hk : key a = k
      · have hne : key new ≠ k := fun h => hkey (hk.trans h.symm)
        rw [if_pos hk, if_neg hne, if_pos hk]
      · simp only [if_neg hk]

lemma keys_upsert (hchange : ∀ a, key a = key new → key (change a) = key new) :
    (upsert key new change l).map key
      = if key new ∈ l.map key then l.map key else l.map key ++ [key new] := by
  induction l with
  | nil => rfl
  | cons a l ih =>
    rw [upsert]
    by_cases hkey : key a = key new
    · simp [hkey, hchange a hkey]
    · rw [if_neg hkey, map_cons, ih, map_cons]
      by_cases hmem : key new ∈ l.map key
      · rw [if_pos hmem, if_pos (mem_cons_of_mem _ hmem)]
      · rw [if_neg hmem, if_neg fun h => (mem_cons.mp h).elim (Ne.symm hkey) hmem]
        rfl

lemma Distinct.upsert (hl : Distinct key l)
    (hchange : ∀ a, key a = key new → key (change a) = key new) :
    Distinct key (KeyedList.upsert key new change l) := by
  rw [Distinct, keys_upsert hchange]
  split_ifs with hmem
  · exact hl
  · refine nodup_append.mpr ⟨hl, nodup_singleton _, fun k hk k' hk' => ?_⟩
    rw [mem_singleton.mp hk']
    exact ne_of_mem_of_not_mem hk hmem

lemma find_eraseP (hl : Distinct key l) :
    find key (l.eraseP fun a => key a = k') k = if k = k' then none else find key l k := by
  induction l with
  | nil =>
    split_ifs <;> rfl
  | cons a l ih =>
    obtain ⟨hfresh, hrest⟩ := nodup_cons.mp hl
    by_cases hkey : key a = k'
    · rw [eraseP_cons_of_pos (by simpa using hkey), find_cons]
      by_cases hk : k = k'
      · rw [if_pos hk, find_eq_none, hk, ← hkey]
        exact hfresh
      · rw [if_neg hk, if_neg fun h => hk (h.symm.trans hkey)]
    · rw [eraseP_cons_of_neg (by simpa using hkey), find_cons, find_cons, ih hrest]
      by_cases hk : k = k'
      · rw [if_pos hk, if_pos hk, if_neg fun h => hkey (h.trans hk)]
      · rw [if_neg hk, if_neg hk]

end KeyedList
