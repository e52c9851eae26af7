import Mathlib.Combinatorics.SimpleGraph.Metric

/-!
Distance vectors: what costs and next hops towards one destination have to satisfy in a graph with
unit costs to be the distances, up to a cost that stands for infinity.

* `Balanced`: a finite cost is above the cost of a next hop; and a router is no more than one above
  each neighbour, or is the neighbour's next hop itself (a neighbour need not tell its cost to its
  next hop);
* `Balanced.edist_le`, `Balanced.cost_le`: the cost is no less, and no more, than the distance.
-/

namespace DistanceVector

open SimpleGraph

variable {V : Type*}

/-- Costs and next hops towards `d`. -/
structure Balanced (G : SimpleGraph V) (d : V) (infinity : ℕ) (cost : V → ℕ) (hop : V → V) :
    Prop where
  target : cost d = 0
  down : ∀ {r}, r ≠ d → cost r < infinity → G.Adj r (hop r) ∧ cost (hop r) + 1 ≤ cost r
  relax : ∀ {r n}, r ≠ d → G.Adj r n → cost n + 1 < infinity →
    cost r ≤ cost n + 1 ∨ n ≠ d ∧ hop n = r

namespace Balanced

variable {G : SimpleGraph V} {d : V} {infinity : ℕ} {cost : V → ℕ} {hop : V → V}

section

variable (hbal : Balanced G d infinity cost hop)
include hbal

/-- Next hops lead to the destination. -/
lemma edist_le {r : V} (hr : cost r < infinity) : G.edist r d ≤ cost r := by
  induction hcost : cost r using Nat.strong_induction_on generalizing r with
  | _ c ih =>
    by_cases hd : r = d
    · rw [hd, edist_self]
      exact bot_le
    · obtain ⟨hadj, hdown⟩ := hbal.down hd hr
      have hhop := ih (cost (hop r)) (by omega) (by omega) rfl
      calc G.edist r d ≤ G.edist r (hop r) + G.edist (hop r) d := SimpleGraph.edist_triangle
        _ ≤ 1 + (cost (hop r) : ℕ∞) :=
            add_le_add (edist_eq_one_iff_adj.mpr hadj).le hhop
        _ ≤ c := by
            rw [← hcost, add_comm]
            exact_mod_cast hdown

/-- A walk to the destination bounds the cost. -/
lemma cost_le {r : V} (walk : G.Walk r d)
    (hlt : walk.length < infinity) : cost r ≤ walk.length := by
  induction walk with
  | nil => exact hbal.target.le
  | @cons r n d hadj walk ih =>
    rw [Walk.length_cons] at hlt ⊢
    have hn := ih hbal (by omega)
    by_cases hd : r = d
    · rw [hd, hbal.target]
      exact Nat.zero_le _
    · rcases hbal.relax hd hadj (by omega) with hle | ⟨hne, rfl⟩
      · omega
      · -- `n` sends through `r`, which is then nearer than `n`
        have hdown := (hbal.down hne (by omega)).2
        omega

/-- **The costs are the distances.** -/
lemma cost_eq {r : V} (hr : cost r < infinity) : (cost r : ℕ∞) = G.edist r d := by
  have hle := hbal.edist_le hr
  have htop : G.edist r d ≠ ⊤ := ne_top_of_le_ne_top (ENat.natCast_ne_top _) hle
  obtain ⟨walk, hwalk⟩ := exists_walk_of_edist_ne_top htop
  rw [← hwalk] at hle ⊢
  have hshort : walk.length ≤ cost r := by exact_mod_cast hle
  have := hbal.cost_le walk (by omega)
  exact_mod_cast le_antisymm this hshort

lemma cost_lt_iff {r : V} : cost r < infinity ↔ G.edist r d < infinity := by
  constructor
  · intro hr
    rw [← hbal.cost_eq hr]
    exact_mod_cast hr
  · intro hr
    obtain ⟨walk, hwalk⟩ := exists_walk_of_edist_ne_top hr.ne_top
    have hlt : walk.length < infinity := by
      rw [← hwalk] at hr
      exact_mod_cast hr
    exact (hbal.cost_le walk hlt).trans_lt hlt

lemma edist_hop {r : V} (hd : r ≠ d)
    (hr : cost r < infinity) : G.edist (hop r) d + 1 = G.edist r d := by
  obtain ⟨hadj, hdown⟩ := hbal.down hd hr
  have hhop : (cost (hop r) : ℕ∞) = G.edist (hop r) d := hbal.cost_eq (by omega)
  refine le_antisymm ?_ ?_
  · rw [← hhop, ← hbal.cost_eq hr]
    exact_mod_cast hdown
  · rw [add_comm]
    calc G.edist r d ≤ G.edist r (hop r) + G.edist (hop r) d := SimpleGraph.edist_triangle
      _ = 1 + G.edist (hop r) d := by rw [edist_eq_one_iff_adj.mpr hadj]

end

end Balanced

end DistanceVector
