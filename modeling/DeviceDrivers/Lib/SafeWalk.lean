import Mathlib.Algebra.Order.BigOperators.Group.List
import Mathlib.Algebra.Order.Ring.Nat
import Mathlib.Data.List.Nodup
import Mathlib.Tactic.Common

/-!
# Walks that survive the deletion of the current node

`list_for_each_entry_safe` keeps two pointers: the node it is at and the one after it, read before the
body runs. The list is a `List` of its nodes; a pointer is a node, or `none` for the list head. To
advance, the walk reads the link of the saved node, which must still be in the list.
-/

/-- The current node and the saved next one. -/
structure Walk (α : Type*) where
  pos : Option α
  n : Option α

namespace Walk

variable {α : Type*} {l pre rest : List α} {p : α}

/-- The start of a walk. -/
def first (l : List α) : Walk α := ⟨l.head?, l.tail.head?⟩

/-- The node after `p`; `none` if `p` is not in the list. -/
def next? [DecidableEq α] : List α → α → Option (Option α)
  | [], _ => none
  | x :: xs, p => if x = p then some xs.head? else next? xs p

/-- The end of one round; `none` if the saved node is no longer in the list. -/
def advance [DecidableEq α] (l : List α) (w : Walk α) : Option (Walk α) :=
  match w.n with
  | none => some ⟨none, none⟩
  | some q => (next? l q).map fun r => ⟨some q, r⟩

/-- The walk stands in front of `rest`, with `pre` behind it. -/
def At (w : Walk α) (l : List α) : Prop :=
  ∃ pre rest, l = pre ++ rest ∧ w = first rest

theorem first_at (l : List α) : (first l).At l := ⟨[], l, rfl, rfl⟩

variable [DecidableEq α]

theorem next?_append (h : p ∉ pre) : next? (pre ++ p :: rest) p = some rest.head? := by
  induction pre with
  | nil => simp [next?]
  | cons x xs ih =>
    rw [List.mem_cons, not_or] at h
    rw [List.cons_append, next?, if_neg (Ne.symm h.1), ih h.2]

theorem advance_append (p : α) (pre rest : List α) (hl : (pre ++ rest).Nodup) :
    advance (pre ++ rest) ⟨some p, rest.head?⟩ = some (first rest) := by
  cases rest with
  | nil => rfl
  | cons q rest =>
    have hq : q ∉ pre := by
      intro hmem
      exact (List.nodup_append.mp hl).2.2 q hmem q List.mem_cons_self rfl
    show (next? (pre ++ q :: rest) q).map _ = _
    rw [next?_append hq]
    rfl

theorem advance_keep (hl : (pre ++ p :: rest).Nodup) :
    advance (pre ++ p :: rest) (first (p :: rest)) = some (first rest) := by
  have h := advance_append p (pre ++ [p]) rest (by simpa using hl)
  rw [List.append_assoc] at h
  exact h

theorem advance_erase (hl : (pre ++ p :: rest).Nodup) :
    (pre ++ p :: rest).erase p = pre ++ rest ∧
      advance (pre ++ rest) (first (p :: rest)) = some (first rest) := by
  constructor
  · have hp : p ∉ pre := by
      intro hmem
      exact (List.nodup_append.mp hl).2.2 p hmem p List.mem_cons_self rfl
    rw [List.erase_append_right _ hp, List.erase_cons_head]
  · exact advance_append p pre rest (hl.sublist (by simp))

end Walk
