import Mathlib.Algebra.Order.BigOperators.Group.List
import Mathlib.Algebra.Order.Ring.Nat
import Mathlib.Order.Interval.Set.Nat
import Mathlib.Tactic.Common

/-!
# Intervals in ascending order

Records `α` that span an interval of the natural numbers, from `lo a` up to but without `hi a`. Where each
interval starts at or after the end of those before it, their lengths add up to the size of their union
(`ncard_covered`), and the sum is never more than the end of the last one (`total_le`).
-/

namespace Intervals

variable {α : Type*} {lo hi : α → Nat} {l : List α}

/-- The numbers in one of the intervals. -/
def covered (lo hi : α → Nat) (l : List α) : Set Nat := {x | ∃ a ∈ l, lo a ≤ x ∧ x < hi a}

/-- The sum of the lengths. -/
def total (lo hi : α → Nat) (l : List α) : Nat := (l.map fun a => hi a - lo a).sum

/-- Each interval starts at or after the end of those before it. -/
def Ascending (lo hi : α → Nat) (l : List α) : Prop := l.Pairwise fun a b => hi a ≤ lo b

theorem covered_cons (a : α) (l : List α) :
    covered lo hi (a :: l) = Set.Ico (lo a) (hi a) ∪ covered lo hi l := by
  ext x
  simp [covered]

theorem finite_covered (l : List α) : (covered lo hi l).Finite := by
  induction l with
  | nil => simp [covered]
  | cons a l ih =>
    rw [covered_cons]
    exact (Set.finite_Ico _ _).union ih

/-- The lengths of ascending intervals add up to the size of their union. -/
theorem ncard_covered (h : Ascending lo hi l) : (covered lo hi l).ncard = total lo hi l := by
  induction l with
  | nil => simp [covered, total]
  | cons a l ih =>
    obtain ⟨hfirst, hrest⟩ := List.pairwise_cons.mp h
    have hdisjoint : Disjoint (Set.Ico (lo a) (hi a)) (covered lo hi l) := by
      rw [Set.disjoint_left]
      rintro x ⟨-, hx⟩ ⟨b, hb, hle, -⟩
      have hafter := hfirst b hb
      omega
    rw [covered_cons, Set.ncard_union_eq hdisjoint (Set.finite_Ico _ _) (finite_covered l), Set.ncard_Ico_nat,
      ih hrest]
    unfold total
    rw [List.map_cons, List.sum_cons]

theorem total_concat (l : List α) (a : α) : total lo hi (l ++ [a]) = total lo hi l + (hi a - lo a) := by
  simp [total]

theorem total_le (h : Ascending lo hi l) (hle : ∀ a ∈ l, lo a ≤ hi a) {bound : Nat}
    (hbound : ∀ a ∈ l, hi a ≤ bound) : total lo hi l ≤ bound := by
  induction l using List.reverseRecOn generalizing bound with
  | nil => exact Nat.zero_le _
  | append_singleton l a ih =>
    obtain ⟨hrest, -, hlast⟩ := List.pairwise_append.mp h
    rw [List.forall_mem_append, List.forall_mem_singleton] at hle hbound
    -- the earlier ones end where the last one starts
    have hbefore : total lo hi l ≤ lo a :=
      ih hrest hle.1 fun b hb => hlast b hb a (List.mem_singleton_self a)
    have ha := hle.2
    have hend := hbound.2
    rw [total_concat]
    omega

end Intervals
