import Mathlib.Data.List.Sort
import Mathlib.Data.List.Dedup

/-!
Lists without repetitions and the classes of a list under a key.

* `addDistinct`, `distinct`: the elements of a list in order of first occurrence, added to
  those seen before;
* `classes`: for a list of keys, the sublists of elements with each key; over all
  keys that occur they are a rearrangement of the list (`perm_flatten_classes`);
* `rank`: the number of distinct smaller values, which is the index of a value in
  the increasing list of all values (`rank_of_getElem?`).
-/

namespace Grouping

open List

variable {α κ : Type*} [DecidableEq κ] {seen l : List κ}

/-! ### Distinct elements -/

/-- The elements of `seen`, then those of `l` that are new, in order of first
occurrence. -/
def addDistinct (seen l : List κ) : List κ :=
  l.foldl (fun seen a => if a ∈ seen then seen else seen ++ [a]) seen

/-- The elements of a list in order of first occurrence, each once. -/
def distinct (l : List κ) : List κ := addDistinct [] l

@[simp] lemma addDistinct_nil : addDistinct seen [] = seen := rfl

lemma addDistinct_cons {a : κ} :
    addDistinct seen (a :: l) = addDistinct (if a ∈ seen then seen else seen ++ [a]) l := rfl

lemma mem_addDistinct {a : κ} : a ∈ addDistinct seen l ↔ a ∈ seen ∨ a ∈ l := by
  induction l generalizing seen with
  | nil => simp
  | cons b l ih =>
    rw [addDistinct_cons, ih, mem_cons]
    by_cases hb : b ∈ seen
    · rw [if_pos hb]
      constructor
      · rintro (h | h) <;> simp [h]
      · rintro (h | rfl | h)
        · exact Or.inl h
        · exact Or.inl hb
        · exact Or.inr h
    · rw [if_neg hb, mem_append, mem_singleton, or_assoc]

lemma nodup_addDistinct (h : seen.Nodup) : (addDistinct seen l).Nodup := by
  induction l generalizing seen with
  | nil => exact h
  | cons b l ih =>
    rw [addDistinct_cons]
    apply ih
    by_cases hb : b ∈ seen
    · rwa [if_pos hb]
    · rw [if_neg hb]
      exact h.append (nodup_singleton b) (by simpa using hb)

@[simp] lemma mem_distinct {a : κ} : a ∈ distinct l ↔ a ∈ l := by
  simp [distinct, mem_addDistinct]

lemma nodup_distinct (l : List κ) : (distinct l).Nodup := nodup_addDistinct nodup_nil

/-! ### Classes under a key -/

/-- The sublists of `l` with each of the given keys. -/
def classes (key : α → κ) (keys : List κ) (l : List α) : List (List α) :=
  keys.map fun k => l.filter fun a => decide (key a = k)

@[simp] lemma length_classes {key : α → κ} {keys : List κ} {l : List α} :
    (classes key keys l).length = keys.length := by
  simp [classes]

/-- Two disjoint selections of a list make up the selection of their union. -/
lemma filter_append_filter_perm {p q : α → Bool} {l : List α}
    (hpq : ∀ a ∈ l, p a = true → q a = false) :
    (l.filter p ++ l.filter q).Perm (l.filter fun a => p a || q a) := by
  induction l with
  | nil => simp
  | cons a l ih =>
    have ih' := ih fun b hb => hpq b (mem_cons_of_mem a hb)
    cases hp : p a with
    | true =>
      have hq : q a = false := hpq a mem_cons_self hp
      simp only [filter_cons, hp, hq, Bool.true_or, if_true, Bool.false_eq_true,
        if_false, cons_append]
      exact ih'.cons a
    | false =>
      cases hq : q a with
      | true =>
        simp only [filter_cons, hp, hq, Bool.false_or, if_true, Bool.false_eq_true, if_false]
        exact perm_middle.trans (ih'.cons a)
      | false =>
        simpa only [filter_cons, hp, hq, Bool.or_false, Bool.false_eq_true, if_false] using ih'

/-- The classes of distinct keys, put together, are the elements whose key is listed. -/
theorem perm_flatten_classes {key : α → κ} {keys : List κ} (hkeys : keys.Nodup)
    {l : List α} :
    (classes key keys l).flatten.Perm (l.filter fun a => decide (key a ∈ keys)) := by
  induction keys with
  | nil => simp [classes]
  | cons k keys ih =>
    obtain ⟨hk, hkeys⟩ := nodup_cons.mp hkeys
    have hdisj : ∀ a ∈ l, decide (key a = k) = true → decide (key a ∈ keys) = false := by
      intro a _ ha
      rw [of_decide_eq_true ha]
      exact decide_eq_false hk
    have h1 : (classes key (k :: keys) l).flatten
        = (l.filter fun a => decide (key a = k)) ++ (classes key keys l).flatten := by
      simp [classes]
    rw [h1]
    refine ((ih hkeys).append_left _).trans ((filter_append_filter_perm hdisj).trans ?_)
    refine Perm.of_eq (filter_congr fun a _ => ?_)
    simp [mem_cons]

/-- An element is in the class at index `i` if its key is the key at index `i`. -/
lemma mem_getD_classes {key : α → κ} {keys : List κ} {l : List α} {i : ℕ} {a : α} :
    a ∈ (classes key keys l).getD i [] ↔ a ∈ l ∧ keys[i]? = some (key a) := by
  rw [classes, getD_eq_getElem?_getD, getElem?_map]
  cases keys[i]? with
  | none => simp
  | some k => simp [eq_comm]

/-! ### Ranks -/

/-- The number of distinct values below `k`. -/
def rank (values : List ℕ) (k : ℕ) : ℕ := ((distinct values).filter (· < k)).length

/-- In the increasing list of all values, the value at index `i` has rank `i`. -/
theorem rank_of_getElem? {values sorted : List ℕ} (hperm : sorted.Perm (distinct values))
    (hsorted : sorted.Pairwise (· ≤ ·)) {i k : ℕ} (hk : sorted[i]? = some k) :
    rank values k = i := by
  obtain ⟨hi, rfl⟩ := List.getElem?_eq_some_iff.mp hk
  have hnd : sorted.Nodup := hperm.nodup_iff.mpr (nodup_distinct values)
  have hlt : sorted.Pairwise (· < ·) :=
    (hsorted.and hnd).imp fun h => lt_of_le_of_ne h.1 h.2
  have hmono := List.pairwise_iff_getElem.mp hlt
  rw [rank, ← (hperm.filter _).length_eq]
  generalize hv : sorted[i] = v
  -- below index `i` every value is smaller, from `i` on none is
  have hbelow : (sorted.take i).filter (· < v) = sorted.take i := by
    refine List.filter_eq_self.mpr fun a ha => ?_
    obtain ⟨j, hj, rfl⟩ := List.getElem_of_mem ha
    rw [List.length_take] at hj
    have h1 := hmono j i (by omega) hi (by omega)
    rw [List.getElem_take]
    simpa [hv] using h1
  have habove : (sorted.drop i).filter (· < v) = [] := by
    refine List.filter_eq_nil_iff.mpr fun a ha => ?_
    obtain ⟨j, hj, rfl⟩ := List.getElem_of_mem ha
    rw [List.length_drop] at hj
    rw [List.getElem_drop]
    rcases Nat.eq_zero_or_pos j with rfl | hpos
    · simp [hv]
    · have h1 := hmono i (i + j) hi (by omega) (by omega)
      simpa [hv] using h1.le
  have hsplit : sorted.filter (· < v) = sorted.take i := by
    calc sorted.filter (· < v)
        = (sorted.take i ++ sorted.drop i).filter (· < v) := by rw [List.take_append_drop]
      _ = sorted.take i := by rw [List.filter_append, hbelow, habove, List.append_nil]
  rw [hsplit, List.length_take]
  omega

end Grouping
