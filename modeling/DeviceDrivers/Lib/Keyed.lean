import Mathlib.Algebra.Order.BigOperators.Group.List
import Mathlib.Algebra.Order.Ring.Nat
import Mathlib.Data.List.Nodup
import Mathlib.Tactic.Common

/-!
# Lists with keys

A list of records is searched by a key. Where no key occurs twice, updating the first match is updating
every match.
-/

namespace Keyed

variable {α κ : Type*} [DecidableEq κ] {key : α → κ} {k : κ} {l : List α} {i : Nat}

theorem map_ite_of_not_mem (h : k ∉ l.map key) (f : α → α) :
    l.map (fun a => if key a = k then f a else a) = l := by
  conv_rhs => rw [← List.map_id l]
  apply List.map_congr_left
  intro a ha
  rw [if_neg, id]
  intro heq
  exact h (List.mem_map.mpr ⟨a, ha, heq⟩)

theorem modify_findIdx (hn : (l.map key).Nodup) (hi : l.findIdx? (fun a => key a = k) = some i)
    (f : α → α) : l.modify i f = l.map fun a => if key a = k then f a else a := by
  induction l generalizing i with
  | nil => simp at hi
  | cons a l ih =>
    rw [List.map_cons, List.nodup_cons] at hn
    rw [List.findIdx?_cons] at hi
    by_cases ha : key a = k
    · obtain rfl : i = 0 := by simpa [ha] using hi.symm
      rw [List.map_cons, if_pos ha, map_ite_of_not_mem (ha ▸ hn.1)]
      rfl
    · rw [if_neg (by simpa using ha), Option.map_eq_some_iff] at hi
      obtain ⟨j, hj, rfl⟩ := hi
      rw [List.map_cons, if_neg ha, List.modify_succ_cons, ih hn.2 hj]

end Keyed
