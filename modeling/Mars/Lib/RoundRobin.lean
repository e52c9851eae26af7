import Mathlib.Algebra.Group.Fin.Basic
import Mathlib.Algebra.GroupWithZero.Nat
import Mathlib.Data.Fintype.Basic

/-!
A table of `n` slots that are claimed in turn.

* `RoundRobin`: the slot claimed last, and a key and a content in every slot; the key `0` marks a
  slot as free;
* `find`, `claim`, `store`, `release`: the operations; `claim` takes the next slot, whether it is
  free or not;
* `Holds`: the table holds the contents of some items, each in the slot that was next when it came;
  `age` counts the claims since then;
* `Holds.claim`: no item is lost while fewer than `n` claims follow its own.
-/

open Function

/-- The slot claimed last, and the slots. -/
structure RoundRobin (κ β : Type*) (n : ℕ) where
  index : Fin n
  slots : Fin n → κ × Option β

namespace RoundRobin

variable {κ β : Type*} {n : ℕ}

/-- The first slot with a key. -/
def find [DecidableEq κ] (t : RoundRobin κ β n) (key : κ) : Option (Fin n) :=
  (List.finRange n).find? fun k => (t.slots k).1 = key

variable (t : RoundRobin κ β n)

/-- The content of a slot is replaced. -/
def store (k : Fin n) (b : β) : RoundRobin κ β n :=
  { t with slots := update t.slots k ((t.slots k).1, some b) }

lemma slots_store {k : Fin n} {b : β} :
    (t.store k b).slots = update t.slots k ((t.slots k).1, some b) := rfl

/-- A slot is freed. -/
def release [Zero κ] (t : RoundRobin κ β n) (k : Fin n) : RoundRobin κ β n :=
  { t with slots := update t.slots k (0, none) }

lemma slots_release [Zero κ] (t : RoundRobin κ β n) {k : Fin n} :
    (t.release k).slots = update t.slots k (0, none) := rfl

variable [NeZero n]

/-- The next slot is claimed. -/
def claim (key : κ) (b : β) : RoundRobin κ β n :=
  ⟨t.index + 1, update t.slots (t.index + 1) (key, some b)⟩

lemma slots_claim {key : κ} {b : β} :
    (t.claim key b).slots = update t.slots (t.index + 1) (key, some b) := rfl

/-- All slots are free. -/
def new [Zero κ] : RoundRobin κ β n := ⟨0, fun _ => (0, none)⟩

variable {ι : Type*} {t : RoundRobin κ β n} {key : ι → κ} {held : ι → Prop} {age : ι → ℕ}
  {content : ι → β} {i : ι}

/-- The slot that was claimed `age` claims ago. -/
def slotOf (t : RoundRobin κ β n) (age : ℕ) : Fin n := t.index - Fin.ofNat n age

lemma ofNat_succ {a : ℕ} : Fin.ofNat n (a + 1) = Fin.ofNat n a + 1 := by
  ext
  simp [Fin.val_add]

/-- The table holds the contents of some items, under their keys, and nothing else. -/
structure Holds [Zero κ] (t : RoundRobin κ β n) (key : ι → κ) (held : ι → Prop) (age : ι → ℕ)
    (content : ι → β) : Prop where
  slot : ∀ i, held i → t.slots (t.slotOf (age i)) = (key i, some (content i))
  only : ∀ k, (t.slots k).1 ≠ 0 → ∃ i, held i ∧ k = t.slotOf (age i)

variable [Zero κ]

lemma holds_new (h : ∀ i, ¬ held i) : Holds (new : RoundRobin κ β n) key held age content :=
  ⟨fun i hi => absurd hi (h i), fun _ hk => absurd rfl hk⟩

namespace Holds

variable (h : Holds t key held age content)
include h

lemma congr {held' : ι → Prop} {age' : ι → ℕ} {content' : ι → β} (hheld : ∀ i, held' i ↔ held i)
    (hage : ∀ i, held i → age' i = age i) (hcontent : ∀ i, held i → content' i = content i) :
    Holds t key held' age' content' where
  slot := fun i hi => by
    rw [hheld] at hi
    rw [hage i hi, hcontent i hi]
    exact h.slot i hi
  only := fun k hk => by
    obtain ⟨i, hi, heq⟩ := h.only k hk
    exact ⟨i, (hheld i).mpr hi, by rw [hage i hi, heq]⟩

section

variable (hkey : ∀ i', held i' → key i' = key i → i' = i)
include hkey

/-- The slot of an item that is held is the only one with its key. -/
lemma find_of_held [DecidableEq κ] (hne : key i ≠ 0) (hheld : held i) :
    t.find (key i) = some (t.slotOf (age i)) := by
  have hslot : (t.slots (t.slotOf (age i))).1 = key i := by rw [h.slot i hheld]
  cases hfind : t.find (key i) with
  | none =>
    have hnone := List.find?_eq_none.mp hfind _ (List.mem_finRange (t.slotOf (age i)))
    exact absurd hslot (by simpa using hnone)
  | some k =>
    have hk : (t.slots k).1 = key i := by simpa using List.find?_some hfind
    obtain ⟨i', hi', rfl⟩ := h.only k (hk ▸ hne)
    rw [h.slot i' hi'] at hk
    rw [hkey i' hi' hk]

lemma find_of_not_held [DecidableEq κ] (hne : key i ≠ 0) (hheld : ¬ held i) :
    t.find (key i) = none := by
  refine List.find?_eq_none.mpr fun k _ hk => ?_
  have hk : (t.slots k).1 = key i := by simpa using hk
  obtain ⟨i', hi', rfl⟩ := h.only k (hk ▸ hne)
  rw [h.slot i' hi'] at hk
  exact hheld (hkey i' hi' hk ▸ hi')

omit hkey in
/-- **A claim loses no item while fewer than `n` claims follow that of an item.** -/
lemma claim [DecidableEq ι] (hheld : ¬ held i)
    (hage : ∀ i', held i' → age i' + 1 < n) (b : β) :
    Holds (t.claim (key i) b) key (fun i' => held i' ∨ i' = i)
      (update (fun i' => age i' + 1) i 0) (update content i b) := by
  have hself : (t.claim (key i) b).slotOf 0 = t.index + 1 := by
    rw [slotOf, Fin.ofNat_zero, sub_zero]
    rfl
  have hother : ∀ i', (t.claim (key i) b).slotOf (age i' + 1) = t.slotOf (age i') := fun i' => by
    rw [slotOf, ofNat_succ, RoundRobin.claim, slotOf, add_sub_add_right_eq_sub]
  have hfresh : ∀ i', held i' → t.slotOf (age i') ≠ t.index + 1 := by
    intro i' hi' heq
    have hzero : Fin.ofNat n (age i' + 1) = 0 := by
      rw [ofNat_succ]
      have hsum := sub_eq_iff_eq_add.mp heq
      rw [add_assoc, add_comm 1] at hsum
      exact (left_eq_add.mp hsum)
    have hval := congrArg Fin.val hzero
    rw [Fin.val_ofNat, Fin.val_zero, Nat.mod_eq_of_lt (hage i' hi')] at hval
    exact absurd hval (Nat.succ_ne_zero _)
  have hne : ∀ i', held i' → i' ≠ i := by
    rintro i' hi' rfl
    exact hheld hi'
  constructor
  · rintro i' (hi' | rfl)
    · rw [update_of_ne (hne i' hi'), update_of_ne (hne i' hi'), hother, slots_claim,
        update_of_ne (hfresh i' hi')]
      exact h.slot i' hi'
    · rw [update_self, update_self, hself, slots_claim, update_self]
  · intro k hk
    rcases eq_or_ne k (t.index + 1) with rfl | hknew
    · exact ⟨i, .inr rfl, by rw [update_self, hself]⟩
    · rw [slots_claim, update_of_ne hknew] at hk
      obtain ⟨i', hi', rfl⟩ := h.only k hk
      exact ⟨i', .inl hi', by rw [update_of_ne (hne i' hi'), hother]⟩

omit hkey in
/-- The slots of two items that are held are different. -/
lemma slotOf_ne {i' : ι} (hi : held i) (hi' : held i')
    (hkey : key i' ≠ key i) : t.slotOf (age i') ≠ t.slotOf (age i) := by
  intro heq
  have hslot := h.slot i' hi'
  rw [heq, h.slot i hi] at hslot
  exact hkey (Prod.ext_iff.mp hslot).1.symm

lemma store [DecidableEq ι] (hheld : held i) {b : β} :
    Holds (t.store (t.slotOf (age i)) b) key held age (update content i b) := by
  constructor
  · intro i' hi'
    change (t.store _ b).slots (t.slotOf (age i')) = _
    rw [slots_store]
    rcases eq_or_ne i' i with rfl | hne
    · rw [update_self, update_self, h.slot i' hi']
    · rw [update_of_ne hne, update_of_ne (h.slotOf_ne hheld hi' fun heq => hne (hkey i' hi' heq))]
      exact h.slot i' hi'
  · intro k hk
    rw [slots_store] at hk
    rcases eq_or_ne k (t.slotOf (age i)) with rfl | hne
    · exact ⟨i, hheld, rfl⟩
    · rw [update_of_ne hne] at hk
      exact h.only k hk

lemma release (hheld : held i) :
    Holds (t.release (t.slotOf (age i))) key (fun i' => held i' ∧ i' ≠ i) age content := by
  constructor
  · rintro i' ⟨hi', hne⟩
    change (t.release _).slots (t.slotOf (age i')) = _
    rw [slots_release, update_of_ne (h.slotOf_ne hheld hi' fun heq => hne (hkey i' hi' heq))]
    exact h.slot i' hi'
  · intro k hk
    rw [slots_release] at hk
    rcases eq_or_ne k (t.slotOf (age i)) with rfl | hne
    · rw [update_self] at hk
      exact absurd rfl hk
    · rw [update_of_ne hne] at hk
      obtain ⟨i', hi', rfl⟩ := h.only k hk
      refine ⟨i', ⟨hi', ?_⟩, rfl⟩
      rintro rfl
      exact hne rfl

end

end Holds

end RoundRobin
