import Mathlib.Data.List.Infix
import Mathlib.Data.Option.Basic

/-!
The value of the longest prefix of a list that has one.

* `longestPrefix`: the prefixes are tried from the list itself down to the empty one;
  `longestPrefix_append_of_none`: those that have no value may be left out;
* `scanDown`: the search over the lengths of the prefixes, between two bounds; `scanDown_take`,
  `scanDown_of_none`, `scanDown_split`: how searches are put together;
* `findSome?_tails_reverse`: the search along the tails of the reversed list is the same.
-/

namespace LongestPrefix

open List Option Nat

variable {κ β γ : Type*}

/-- The value of the longest prefix of a list that has one. -/
def longestPrefix (f : List κ → Option β) (l : List κ) : Option β := l.inits.reverse.findSome? f

variable {f : List κ → Option β} {l r : List κ}

@[simp] lemma longestPrefix_nil : longestPrefix f [] = f [] := by
  cases h : f [] <;> simp [longestPrefix, h]

lemma longestPrefix_concat {a : κ} :
    longestPrefix f (l ++ [a]) = (f (l ++ [a])).or (longestPrefix f l) := by
  cases h : f (l ++ [a]) <;> simp [longestPrefix, h]

/-- What comes after the longest prefix with a value makes no difference. -/
lemma longestPrefix_append_of_none
    (h : ∀ q, q <+: r → q ≠ [] → f (l ++ q) = none) :
    longestPrefix f (l ++ r) = longestPrefix f l := by
  induction r using reverseRecOn with
  | nil => rw [append_nil]
  | append_singleton r a ih =>
    have hlast : f (l ++ r ++ [a]) = none := by
      rw [append_assoc]
      exact h _ (prefix_refl _) (by simp)
    rw [← append_assoc, longestPrefix_concat, hlast, none_or,
      ih fun q hq => h q (hq.trans (prefix_append r [a]))]

lemma longestPrefix_eq_none (h : longestPrefix f l = none) : ∀ q, q <+: l → f q = none := by
  intro q hq
  refine findSome?_eq_none_iff.mp h q (mem_reverse.mpr ?_)
  exact (mem_inits q l).mpr hq

/-- The longest prefix that has a value. -/
lemma longestPrefix_eq_some {b : β} (h : longestPrefix f l = some b) :
    ∃ q r, l = q ++ r ∧ f q = some b ∧ ∀ q', q' <+: r → q' ≠ [] → f (q ++ q') = none := by
  induction l using reverseRecOn with
  | nil =>
    rw [longestPrefix_nil] at h
    exact ⟨[], [], rfl, h, fun q' hq' hne => absurd (prefix_nil.mp hq') hne⟩
  | append_singleton l a ih =>
    rw [longestPrefix_concat] at h
    cases hlast : f (l ++ [a]) with
    | some b' =>
      rw [hlast, some_or] at h
      refine ⟨l ++ [a], [], (append_nil _).symm, hlast.trans h, fun q' hq' hne => ?_⟩
      exact absurd (prefix_nil.mp hq') hne
    | none =>
      rw [hlast, none_or] at h
      obtain ⟨q, r, rfl, hq, hlong⟩ := ih h
      refine ⟨q, r ++ [a], append_assoc _ _ _, hq, fun q' hq' hne => ?_⟩
      rcases prefix_concat_iff.mp hq' with rfl | hq'
      · rwa [← append_assoc]
      · exact hlong q' hq' hne

lemma longestPrefix_congr {f' : List κ → Option β} (h : ∀ q, q <+: l → f q = f' q) :
    longestPrefix f l = longestPrefix f' l := by
  induction l using reverseRecOn with
  | nil => rw [longestPrefix_nil, longestPrefix_nil, h [] (prefix_refl [])]
  | append_singleton l a ih =>
    rw [longestPrefix_concat, longestPrefix_concat, h _ (prefix_refl _),
      ih fun q hq => h q (hq.trans (prefix_append l [a]))]

/-- A function may be applied to the values before the search or after it. -/
lemma longestPrefix_map {g : β → γ} :
    longestPrefix (fun q => (f q).map g) l = (longestPrefix f l).map g := by
  induction l using reverseRecOn with
  | nil => simp
  | append_singleton l a ih =>
    rw [longestPrefix_concat, longestPrefix_concat, ih, map_or]

/-- The search along the tails of the reversed list. -/
lemma findSome?_tails_reverse {g : List κ → Option β} :
    l.reverse.tails.findSome? g = longestPrefix (fun q => g q.reverse) l := by
  induction l using reverseRecOn with
  | nil => cases h : g [] <;> simp [h]
  | append_singleton l a ih =>
    rw [longestPrefix_concat, ← ih, reverse_concat, tails_cons, findSome?_cons]
    cases h : g (a :: l.reverse) <;> rfl

/-! ### Searches over the lengths -/

/-- The value at the largest index from `hi` down to `lo` that has one. -/
def scanDown (g : ℕ → Option β) (lo : ℕ) : ℕ → Option β
  | 0 => if lo = 0 then g 0 else none
  | hi + 1 => if hi + 1 < lo then none else (g (hi + 1)).or (scanDown g lo hi)

variable {g : ℕ → Option β} {lo m hi : ℕ}

lemma scanDown_succ : scanDown g 0 (hi + 1) = (g (hi + 1)).or (scanDown g 0 hi) := by
  rw [scanDown, if_neg (not_lt_zero _)]

lemma scanDown_of_lt (h : hi < lo) : scanDown g lo hi = none := by
  cases hi with
  | zero => rw [scanDown, if_neg (ne_of_gt h)]
  | succ hi => rw [scanDown, if_pos h]

/-- Indices without a value may be left out at the top. -/
lemma scanDown_of_none (hm : m ≤ hi) (h : ∀ i, m < i → i ≤ hi → g i = none) :
    scanDown g lo hi = scanDown g lo m := by
  induction hi with
  | zero => rw [le_zero.mp hm]
  | succ hi ih =>
    rcases lt_or_ge m (hi + 1) with hlt | hge
    · rw [scanDown]
      split_ifs with hlo
      · rw [scanDown_of_lt (hlt.trans hlo)]
      · rw [h (hi + 1) hlt le_rfl, none_or,
          ih (le_of_lt_succ hlt) fun i hi' hle => h i hi' (hle.trans (le_succ hi))]
    · rw [le_antisymm hm hge]

/-- A search may be made in two parts. -/
lemma scanDown_split (hm : m ≤ hi) :
    (scanDown g (m + 1) hi).or (scanDown g 0 m) = scanDown g 0 hi := by
  induction hi with
  | zero => rw [le_zero.mp hm, scanDown_of_lt (lt_succ_self 0), none_or]
  | succ hi ih =>
    rcases lt_or_ge m (hi + 1) with hlt | hge
    · rw [scanDown, if_neg (Nat.not_lt.mpr (Nat.succ_le_of_lt hlt)), Option.or_assoc,
        ih (le_of_lt_succ hlt), scanDown_succ]
    · rw [le_antisymm hm hge, scanDown_of_lt (lt_succ_self _), none_or]

/-- The search over the lengths of the prefixes. -/
lemma scanDown_take (hm : m ≤ l.length) :
    scanDown (fun i => f (l.take i)) 0 m = longestPrefix f (l.take m) := by
  induction m with
  | zero => simp [scanDown]
  | succ m ih =>
    have htake : l.take (m + 1) = l.take m ++ [l.get ⟨m, hm⟩] := by
      rw [take_add_one, getElem?_eq_getElem hm]
      rfl
    rw [scanDown_succ, ih (le_of_succ_le hm), htake, longestPrefix_concat]

end LongestPrefix
