import Mathlib.Data.List.MinMax

/-!
A queue of values with priorities, of which the least comes first.

* `push`, `update`: enter a value, or change its priority;
* `popIf`: the item of least priority, if it is due, and the rest; `popIf_spec`: it was in the
  queue; `popIf_none`: else nothing is due.
-/

/-- The items of a queue. -/
abbrev PriorityQueue (V P : Type*) := List (V × P)

namespace PriorityQueue

variable {V P : Type*} [DecidableEq V] [LinearOrder P]

def push (q : PriorityQueue V P) (v : V) (p : P) : PriorityQueue V P := q ++ [(v, p)]

/-- Change the priority of a value. -/
def update (q : PriorityQueue V P) (v : V) (p : P) : PriorityQueue V P :=
  q.map fun item => if item.1 = v then (v, p) else item

/-- The item of least priority and the rest, if there is one and its priority is due. -/
def popIf (q : PriorityQueue V P) (due : P → Bool) : Option (V × PriorityQueue V P) :=
  match List.argmin Prod.snd q with
  | some item => if due item.2 then some (item.1, q.erase item) else none
  | none => none

omit [DecidableEq V] [LinearOrder P] in
lemma mem_push {q : PriorityQueue V P} {v : V} {p : P} {item : V × P} :
    item ∈ q.push v p ↔ item ∈ q ∨ item = (v, p) := by
  rw [push, List.mem_append, List.mem_singleton]

omit [LinearOrder P] in
/-- The value whose priority changes has the new one, if it was in the queue. -/
lemma mem_update_self {q : PriorityQueue V P} {v : V} {p p' : P} (h : (v, p) ∈ q) :
    (v, p') ∈ q.update v p' :=
  List.mem_map.mpr ⟨(v, p), h, if_pos rfl⟩

omit [LinearOrder P] in
/-- The other items stay. -/
lemma mem_update_of_ne {q : PriorityQueue V P} {v v' : V} {p p' : P} (h : (v', p') ∈ q)
    (hne : v' ≠ v) : (v', p') ∈ q.update v p :=
  List.mem_map.mpr ⟨(v', p'), h, if_neg hne⟩

lemma popIf_spec {q rest : PriorityQueue V P} {due : P → Bool} {v : V}
    (h : q.popIf due = some (v, rest)) : ∃ p, due p ∧ (v, p) ∈ q ∧ rest = q.erase (v, p) := by
  unfold popIf at h
  split at h
  · rename_i item hitem
    split_ifs at h with hdue
    cases h
    exact ⟨item.2, hdue, List.argmin_mem hitem, rfl⟩
  · cases h

/-- If nothing is taken, nothing up to the bound is in the queue. -/
lemma popIf_none {q : PriorityQueue V P} {bound : P} (h : q.popIf (· ≤ bound) = none) :
    ∀ item ∈ q, bound < item.2 := by
  unfold popIf at h
  split at h
  · rename_i least hleast
    split_ifs at h with hdue
    intro item hitem
    have hlt : bound < least.2 := not_le.mp fun hle => hdue (decide_eq_true hle)
    exact hlt.trans_le (not_lt.mp (List.not_lt_of_mem_argmin hitem hleast))
  · rename_i hnone
    intro item hitem
    rw [List.argmin_eq_none.mp hnone] at hitem
    exact absurd hitem List.not_mem_nil

end PriorityQueue
