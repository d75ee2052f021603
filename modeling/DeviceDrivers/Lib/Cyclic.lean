import Mathlib.Data.List.Nodup
import Mathlib.Data.List.Range
import Mathlib.Data.Nat.ModEq
import Mathlib.Tactic.Common

/-!
# Positions on a cycle

The positions `(g + i) % n`, `i = 0, 1, …`, that an index visits on a cycle of length `n`.
-/

namespace Cyclic

theorem add_mod_inj {g n i j : Nat} (hi : i < n) (hj : j < n) (h : (g + i) % n = (g + j) % n) :
    i = j :=
  (Nat.ModEq.add_left_cancel' g h).eq_of_lt_of_lt hi hj

theorem nodup_positions {g n k : Nat} (h : k ≤ n) :
    ((List.range k).map fun i => (g + i) % n).Nodup := by
  refine List.Nodup.map_on ?_ List.nodup_range
  intro i hi j hj heq
  rw [List.mem_range] at hi hj
  exact add_mod_inj (by omega) (by omega) heq

end Cyclic
