import Mathlib.Data.Finset.Basic

/-!
First arrivals in a list.

* `newcomers`: the items whose first arrival comes after that of a given one;
* `newcomers_concat`: one more arrival adds its item if it is the first of it.
-/

namespace Arrivals

open List

variable {α : Type*} [DecidableEq α] {p : α → Prop} [DecidablePred p] {arrived : List α} {a b : α}

/-- The items with property `p`, other than `a`, whose first arrival comes after that of `a`. -/
def newcomers (p : α → Prop) [DecidablePred p] (arrived : List α) (a : α) : Finset α :=
  (arrived.dropWhile (· ≠ a)).toFinset.filter fun b =>
    p b ∧ b ≠ a ∧ b ∉ arrived.takeWhile (· ≠ a)

lemma newcomers_subset : newcomers p arrived a ⊆ arrived.toFinset := fun b hb => by
  rw [newcomers, Finset.mem_filter, mem_toFinset] at hb
  exact mem_toFinset.mpr ((dropWhile_sublist _).subset hb.1)

lemma newcomers_split {before since : List α} (h : a ∉ before) :
    newcomers p (before ++ a :: since) a
      = since.toFinset.filter fun b => p b ∧ b ≠ a ∧ b ∉ before := by
  have hall : ∀ b ∈ before, decide (b ≠ a) = true := fun b hb => by
    rw [decide_eq_true_eq]
    rintro rfl
    exact h hb
  have hdrop : (before ++ a :: since).dropWhile (· ≠ a) = a :: since := by
    rw [dropWhile_append_of_pos hall, dropWhile_cons_of_neg (by simp)]
  have htake : (before ++ a :: since).takeWhile (· ≠ a) = before := by
    rw [takeWhile_append_of_pos hall, takeWhile_cons_of_neg (by simp), append_nil]
  rw [newcomers, hdrop, htake, toFinset_cons, Finset.filter_insert, if_neg (by simp)]

/-- An item that has just come for the first time has no newcomers. -/
lemma newcomers_first (h : a ∉ arrived) : newcomers p (arrived ++ [a]) a = ∅ := by
  rw [newcomers_split h, toFinset_nil, Finset.filter_empty]

lemma newcomers_concat (ha : a ∈ arrived) :
    newcomers p (arrived ++ [b]) a
      = if p b ∧ b ∉ arrived then insert b (newcomers p arrived a) else newcomers p arrived a := by
  obtain ⟨before, since, rfl, hbefore⟩ := eq_append_cons_of_mem ha
  rw [append_assoc, cons_append, newcomers_split hbefore, newcomers_split hbefore]
  ext b'
  split_ifs with hb
  · simp only [Finset.mem_filter, mem_toFinset, mem_append, mem_singleton, Finset.mem_insert]
    constructor
    · rintro ⟨hin | rfl, hp⟩
      exacts [.inr ⟨hin, hp⟩, .inl rfl]
    · rintro (rfl | ⟨hin, hp⟩)
      · rw [mem_append, mem_cons, not_or, not_or] at hb
        exact ⟨.inr rfl, hb.1, hb.2.2.1, hb.2.1⟩
      · exact ⟨.inl hin, hp⟩
  · simp only [Finset.mem_filter, mem_toFinset, mem_append, mem_singleton]
    refine and_congr_left fun ⟨hp, hne, hout⟩ => or_iff_left_of_imp ?_
    rintro rfl
    by_contra hin
    refine hb ⟨hp, ?_⟩
    rw [mem_append, mem_cons]
    exact fun h => h.elim hout fun h => h.elim hne hin

end Arrivals
