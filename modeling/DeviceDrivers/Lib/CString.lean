import Mathlib.Algebra.Order.BigOperators.Group.List
import Mathlib.Algebra.Order.Ring.Nat
import Mathlib.Data.List.TakeWhile
import Mathlib.Tactic.Common

/-!
# Terminated strings in a buffer

A buffer holds the string that stands before its first terminator `z`; what is behind the terminator
is left over from earlier contents. `fill` copies a block over the front of a buffer of fixed length.
-/

namespace CString

variable {α : Type*} [DecidableEq α] (z : α)

/-- The string in a buffer. -/
def content (l : List α) : List α := l.takeWhile (· ≠ z)

@[simp] theorem content_nil : content z [] = [] := rfl

@[simp] theorem content_cons_self (l : List α) : content z (z :: l) = [] := by simp [content]

theorem content_cons_of_ne {a : α} (h : a ≠ z) (l : List α) : content z (a :: l) = a :: content z l := by
  unfold content
  rw [List.takeWhile_cons_of_pos (by simpa using h)]

theorem content_isPrefix (l : List α) : content z l <+: l := List.takeWhile_prefix _

variable {z} in
theorem content_eq_self {l : List α} : content z l = l ↔ z ∉ l := by
  unfold content
  rw [List.takeWhile_eq_self_iff]
  constructor
  · intro h hz
    simpa using h z hz
  · intro h a ha
    rw [decide_eq_true_iff]
    rintro rfl
    exact h ha

variable {z} in
theorem length_content_eq {l : List α} : (content z l).length = l.length ↔ z ∉ l := by
  rw [← content_eq_self]
  constructor
  · intro h
    exact (content_isPrefix z l).eq_of_length h
  · intro h
    rw [h]

theorem content_terminated (w rest : List α) : content z (w ++ z :: rest) = content z w := by
  induction w with
  | nil => simp [content]
  | cons a w ih =>
    unfold content at ih ⊢
    rw [List.cons_append]
    by_cases ha : a = z
    · rw [List.takeWhile_cons_of_neg (by simpa using ha), List.takeWhile_cons_of_neg (by simpa using ha)]
    · rw [List.takeWhile_cons_of_pos (by simpa using ha), List.takeWhile_cons_of_pos (by simpa using ha),
        ih]

/-- A block written over the front of a buffer keeps the string exactly if it writes nothing new over
the string and its terminator. -/
theorem content_overwrite {w l : List α} (h : w.length ≤ l.length) :
    content z (w ++ l.drop w.length) = content z l ↔
      ∀ (i : Nat) (a : α), w[i]? = some a → i ≤ (content z l).length → l[i]? = some a := by
  induction w generalizing l with
  | nil => simp
  | cons a w ih =>
    cases l with
    | nil => simp at h
    | cons x l =>
      rw [List.cons_append, List.length_cons, List.drop_succ_cons]
      by_cases hx : x = z
      · -- the string is empty: only its terminator counts
        subst hx
        rw [content_cons_self]
        constructor
        · intro hkeep i b hi hle
          obtain rfl : i = 0 := by simpa using hle
          by_cases ha : a = x
          · simpa [ha] using hi
          · rw [content_cons_of_ne x ha] at hkeep
            cases hkeep
        · intro hsame
          obtain rfl : x = a := by simpa using hsame 0 a rfl (Nat.zero_le _)
          exact content_cons_self x _
      · have htail := ih (l := l) (by simpa using h)
        rw [content_cons_of_ne z hx]
        constructor
        · intro hkeep
          have ha : a ≠ z := by
            rintro rfl
            rw [content_cons_self] at hkeep
            cases hkeep
          rw [content_cons_of_ne z ha] at hkeep
          obtain ⟨rfl, hrest⟩ := List.cons.inj hkeep
          intro i b hi hle
          cases i with
          | zero => simpa using hi
          | succ i => exact htail.mp hrest i b (by simpa using hi) (by simpa using hle)
        · intro hsame
          obtain rfl : x = a := by simpa using hsame 0 a rfl (Nat.zero_le _)
          rw [content_cons_of_ne z hx]
          congr 1
          apply htail.mpr
          intro i b hi hle
          simpa using hsame (i + 1) b (by simpa using hi) (by simpa using hle)

theorem take_drop_eq {l : List α} {i n : Nat} (h : i + n ≤ (content z l).length) :
    (l.drop i).take n = ((content z l).drop i).take n := by
  obtain ⟨rest, hrest⟩ := content_isPrefix z l
  conv_lhs => rw [← hrest]
  rw [List.drop_append_of_le_length (by omega), List.take_append_of_le_length]
  rw [List.length_drop]
  omega

theorem length_content_le {l : List α} {i : Nat} (h : l[i]? = some z) : (content z l).length ≤ i := by
  by_contra hlt
  have hi : i < (content z l).length := by omega
  have hz : (content z l)[i] = z := by
    have hget := (content_isPrefix z l).getElem hi
    rw [hget]
    exact (List.getElem?_eq_some_iff.mp h).2
  have hne := List.mem_takeWhile_imp (List.getElem_mem hi)
  simp [hz] at hne

omit [DecidableEq α]

theorem take_drop_add (l : List α) (i k n : Nat) :
    (l.drop i).take (k + n) =
      (l.drop i).take k ++ (l.drop (i + ((l.drop i).take k).length)).take n := by
  rw [List.take_add, ← List.drop_drop, List.length_take]
  rcases Nat.le_total k (l.drop i).length with hk | hk
  · rw [min_eq_left hk]
  · rw [min_eq_right hk, List.drop_length, List.drop_eq_nil_of_le hk]

/-- The block `w` copied over the front of the buffer `v`. -/
def fill {n : Nat} (v : Vector α n) (w : List α) : Vector α n :=
  Vector.ofFn fun i => (w[i.val]?).getD v[i]

theorem toList_fill {n : Nat} (v : Vector α n) {w : List α} (h : w.length ≤ n) :
    (fill v w).toList = w ++ v.toList.drop w.length := by
  apply List.ext_getElem
  · simp
    omega
  · intro i h₁ h₂
    have hi : i < n := by simpa using h₁
    by_cases hw : i < w.length
    · simp [fill, hw]
    · have hnone : w[i]? = none := List.getElem?_eq_none (by omega)
      have hidx : w.length + (i - w.length) = i := by omega
      rw [List.getElem_append_right (by omega)]
      simp [fill, hnone, hidx]

theorem getElem?_fill {n : Nat} (v : Vector α n) {w : List α} {i : Nat} (h : w.length ≤ i) :
    (fill v w)[i]? = v[i]? := by
  have hnone : w[i]? = none := List.getElem?_eq_none h
  by_cases hi : i < n
  · simp [fill, hi, hnone]
  · simp [hi]

theorem fill_set {n : Nat} (v : Vector α n) {w : List α} (h : w.length < n) (a : α) :
    (fill v w).set w.length a h = fill v (w ++ [a]) := by
  obtain ⟨x, hdrop⟩ : ∃ x, v.toList.drop w.length = x :: v.toList.drop (w.length + 1) :=
    ⟨_, List.drop_eq_getElem_cons (by simpa using h)⟩
  apply Vector.toList_inj.mp
  rw [Vector.toList_set, toList_fill v h.le, toList_fill v (by rw [List.length_append]; exact h),
    List.set_append_right _ _ (Nat.le_refl _), Nat.sub_self, List.length_append, List.length_singleton,
    List.append_assoc, hdrop]
  rfl

/-- Stores one after another; `none` is a store outside the buffer. -/
def storeAll {n : Nat} (v : Vector α n) : List (Nat × α) → Option (Vector α n)
  | [] => some v
  | (i, a) :: rest => if h : i < n then storeAll (v.set i a h) rest else none

/-- The stores of a block, from the index `i` on. -/
def stores : Nat → List α → List (Nat × α)
  | _, [] => []
  | i, a :: w => (i, a) :: stores (i + 1) w

theorem lt_of_mem_stores {i : Nat} {w : List α} {x : Nat × α} (h : x ∈ stores i w) :
    x.1 < i + w.length := by
  induction w generalizing i with
  | nil => simp [stores] at h
  | cons a w ih =>
    rw [stores] at h
    rw [List.length_cons]
    rcases List.mem_cons.mp h with rfl | h
    · dsimp only
      omega
    · have := ih h
      omega

theorem storeAll_append {n : Nat} (v : Vector α n) (xs ys : List (Nat × α)) :
    storeAll v (xs ++ ys) = (storeAll v xs).bind fun u => storeAll u ys := by
  induction xs generalizing v with
  | nil => rfl
  | cons x xs ih =>
    rw [List.cons_append, storeAll, storeAll]
    split_ifs with h
    · exact ih _
    · rfl

theorem storeAll_stores {n : Nat} (v : Vector α n) {i : Nat} {w : List α} (h : i + w.length ≤ n) :
    ∃ u, storeAll v (stores i w) = some u ∧
      u.toList = v.toList.take i ++ w ++ v.toList.drop (i + w.length) := by
  induction w generalizing v i with
  | nil => exact ⟨v, rfl, by simp⟩
  | cons a w ih =>
    rw [List.length_cons] at h
    have hi : i < n := by omega
    obtain ⟨u, hu, hlist⟩ := ih (v.set i a hi) (i := i + 1) (by omega)
    refine ⟨u, ?_, ?_⟩
    · rw [stores, storeAll, dif_pos hi]
      exact hu
    · rw [hlist, Vector.toList_set, List.drop_set_of_lt (by omega), List.take_succ_eq_append_getElem (by simpa),
        List.take_set_of_le (Nat.le_refl i), List.getElem_set_self, List.length_cons]
      simp [Nat.add_assoc, Nat.add_comm 1]

theorem storeAll_fill {n : Nat} (v : Vector α n) {w : List α} (h : w.length ≤ n) :
    storeAll v (stores 0 w) = some (fill v w) := by
  obtain ⟨u, hu, hlist⟩ := storeAll_stores v (i := 0) (w := w) (by omega)
  rw [hu]
  congr 1
  apply Vector.toList_inj.mp
  rw [hlist, toList_fill v h]
  simp

end CString
