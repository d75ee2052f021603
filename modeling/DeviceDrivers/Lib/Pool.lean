import Mathlib.Algebra.Order.BigOperators.Group.List
import Mathlib.Algebra.Order.Ring.Nat
import Mathlib.Tactic.Common

/-!
# A pool of threads

Any number of threads is a list of their local states; a step of thread `i` replaces the entry `i`.
-/

namespace Pool

variable {α : Type*} {l : List α} {i : Nat} {a b : α}

theorem forall_set {P : α → Prop} (h : ∀ x ∈ l, P x) (hb : P b) : ∀ x ∈ l.set i b, P x := by
  intro x hx
  rcases List.mem_or_eq_of_mem_set hx with hx | rfl
  · exact h x hx
  · exact hb

theorem getElem?_set_cases {j : Nat} {x : α} (h : (l.set i b)[j]? = some x) :
    (j = i ∧ x = b) ∨ (j ≠ i ∧ l[j]? = some x) := by
  rw [List.getElem?_set] at h
  split_ifs at h with hij hlt
  · left
    exact ⟨hij.symm, (Option.some.inj h).symm⟩
  · right
    exact ⟨Ne.symm hij, h⟩

theorem getElem?_concat_cases {j : Nat} {x : α} (h : (l ++ [b])[j]? = some x) :
    (j = l.length ∧ x = b) ∨ l[j]? = some x := by
  rw [List.getElem?_append] at h
  split_ifs at h with hlt
  · right
    exact h
  · left
    obtain ⟨hj, rfl⟩ := List.getElem?_eq_some_iff.mp h
    simp only [List.length_singleton] at hj
    refine ⟨by omega, by simp⟩

theorem sum_map_set (f : α → Nat) (h : l[i]? = some a) :
    ((l.set i b).map f).sum + f a = (l.map f).sum + f b := by
  induction l generalizing i with
  | nil => simp at h
  | cons x xs ih =>
    cases i with
    | zero =>
      obtain rfl : x = a := by simpa using h
      simp only [List.set_cons_zero, List.map_cons, List.sum_cons]
      omega
    | succ i =>
      have := ih (i := i) (by simpa using h)
      simp only [List.set_cons_succ, List.map_cons, List.sum_cons]
      omega

theorem countP_set (q : α → Bool) (h : l[i]? = some a) :
    (l.set i b).countP q + (if q a then 1 else 0) = l.countP q + (if q b then 1 else 0) := by
  induction l generalizing i with
  | nil => simp at h
  | cons x xs ih =>
    cases i with
    | zero =>
      obtain rfl : x = a := by simpa using h
      rw [List.set_cons_zero, List.countP_cons, List.countP_cons]
      omega
    | succ i =>
      have := ih (i := i) (by simpa using h)
      rw [List.set_cons_succ, List.countP_cons, List.countP_cons]
      omega

theorem zip_set {β : Type*} {labels : List β} {x : β} (h : labels[i]? = some x) :
    labels.zip (l.set i b) = (labels.zip l).set i (x, b) := by
  induction l generalizing i labels with
  | nil => simp
  | cons y ys ih =>
    cases labels with
    | nil => simp at h
    | cons z zs =>
      cases i with
      | zero =>
        obtain rfl : z = x := by simpa using h
        rfl
      | succ i =>
        rw [List.set_cons_succ, List.zip_cons_cons, List.zip_cons_cons, List.set_cons_succ,
          ih (by simpa using h)]

end Pool
