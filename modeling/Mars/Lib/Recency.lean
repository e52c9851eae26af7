import Mathlib.Data.List.Nodup

/-!
The order of last use.

A history lists the values that were used, in order; a queue holds some of them.

* `Older`: the last use of one value lies before the last use of another;
* `Ordered`: the values of a queue stand in the order of their last use;
* `Ordered.use`: to move a value to the back when it is used keeps this, so that the front of the
  queue is the value whose last use is oldest (`Ordered.older_of_cons`).
-/

namespace Recency

open List

variable {α : Type*} [DecidableEq α] {uses queue : List α} {a b c : α}

/-- The last use of `a` lies before the last use of `b`: from the end of the history, `b` is met
first. -/
def Older (uses : List α) (a b : α) : Prop :=
  a ∈ uses ∧ uses.reverse.idxOf b < uses.reverse.idxOf a

instance (uses : List α) (a b : α) : Decidable (Older uses a b) :=
  inferInstanceAs (Decidable (a ∈ uses ∧ uses.reverse.idxOf b < uses.reverse.idxOf a))

lemma idxOf_reverse_concat_of_ne (hne : a ≠ c) :
    (uses ++ [c]).reverse.idxOf a = uses.reverse.idxOf a + 1 := by
  rw [reverse_append, reverse_singleton, singleton_append, idxOf_cons_ne _ hne.symm]

lemma idxOf_reverse_concat_self : (uses ++ [c]).reverse.idxOf c = 0 := by
  rw [reverse_append, reverse_singleton, singleton_append, idxOf_cons_self]

/-- The value that was used last is older than none. -/
lemma older_concat_self (ha : a ∈ uses) (hne : a ≠ c) : Older (uses ++ [c]) a c := by
  refine ⟨mem_append_left _ ha, ?_⟩
  rw [idxOf_reverse_concat_self, idxOf_reverse_concat_of_ne hne]
  exact Nat.succ_pos _

/-- A use of another value changes nothing for `a`. -/
lemma Older.concat (h : Older uses a b) (hne : a ≠ c) : Older (uses ++ [c]) a b := by
  rcases eq_or_ne b c with rfl | hb
  · exact older_concat_self h.1 hne
  · refine ⟨mem_append_left _ h.1, ?_⟩
    rw [idxOf_reverse_concat_of_ne hne, idxOf_reverse_concat_of_ne hb]
    exact Nat.succ_lt_succ h.2

/-- The values of a queue are used ones, in the order of their last use. -/
structure Ordered (uses queue : List α) : Prop where
  used : ∀ a ∈ queue, a ∈ uses
  pairwise : queue.Pairwise (Older uses)

lemma ordered_nil : Ordered uses [] := ⟨by simp, .nil⟩

lemma Ordered.sublist {queue' : List α} (h : Ordered uses queue) (hs : queue'.Sublist queue) :
    Ordered uses queue' :=
  ⟨fun a ha => h.used a (hs.subset ha), h.pairwise.sublist hs⟩

/-- The front of the queue is older than all others. -/
lemma Ordered.older_of_cons (h : Ordered uses (a :: queue)) (hb : b ∈ queue) : Older uses a b :=
  (pairwise_cons.mp h.pairwise).1 b hb

/-- **A value that is used moves to the back.** -/
theorem Ordered.use (h : Ordered uses queue) (hnodup : queue.Nodup) (c : α) :
    Ordered (uses ++ [c]) (queue.erase c ++ [c]) := by
  have hne : ∀ a ∈ queue.erase c, a ≠ c := by
    rintro a ha rfl
    exact hnodup.not_mem_erase ha
  have hold := h.sublist (erase_sublist (a := c))
  refine ⟨fun a ha => ?_, pairwise_append.mpr ⟨?_, pairwise_singleton _ _, ?_⟩⟩
  · rcases mem_append.mp ha with ha | ha
    exacts [mem_append_left _ (hold.used a ha), mem_append_right _ ha]
  · exact hold.pairwise.imp_of_mem fun ha _ hab => hab.concat (hne _ ha)
  · intro a ha b hb
    rw [mem_singleton.mp hb]
    exact older_concat_self (hold.used a ha) (hne a ha)

end Recency
