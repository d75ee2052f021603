import Mathlib.Algebra.Order.BigOperators.Group.List
import Mathlib.Algebra.Order.Ring.Nat
import Mathlib.Logic.Function.Basic
import Mathlib.Tactic.Common

/-!
# Reference ledgers

Objects `τ` are reference counted and holders `α` each stand for one reference, to the object `key a`.
The ledger is balanced when every object has as many references as it has holders. Taking a reference
together with a new holder keeps it balanced, and so does dropping one together with a holder.
-/

namespace Ledger

variable {τ α : Type*} [DecidableEq τ] {key : α → τ} {refs : τ → Int} {l l' : List α} {a : α}

/-- Take a reference to `t`. -/
def get (refs : τ → Int) (t : τ) : τ → Int := Function.update refs t (refs t + 1)

/-- Drop a reference to `t`. -/
def put (refs : τ → Int) (t : τ) : τ → Int := Function.update refs t (refs t - 1)

/-- The holders of `t` in `l`. -/
def holders (key : α → τ) (l : List α) (t : τ) : Nat := l.countP fun a => key a = t

def Balanced (key : α → τ) (refs : τ → Int) (l : List α) : Prop := ∀ t, refs t = holders key l t

theorem holders_cons (a : α) (l : List α) (t : τ) :
    holders key (a :: l) t = holders key l t + if key a = t then 1 else 0 := by
  unfold holders
  rw [List.countP_cons]
  simp only [decide_eq_true_eq]

theorem holders_filter (p : α → Bool) (l : List α) (t : τ) :
    holders key l t = holders key (l.filter p) t + holders key (l.filter fun a => !p a) t :=
  List.countP_eq_countP_filter_add _ _ _

theorem balanced_nil : Balanced key (fun _ => 0) [] := fun _ => rfl

theorem Balanced.get (h : Balanced key refs l) (a : α) :
    Balanced key (get refs (key a)) (a :: l) := by
  intro t
  rw [holders_cons]
  by_cases ht : key a = t
  · subst ht
    simp [Ledger.get, h (key a)]
  · simp [Ledger.get, Function.update_of_ne (Ne.symm ht), h t, ht]

theorem Balanced.put (h : Balanced key refs (a :: l)) : Balanced key (put refs (key a)) l := by
  intro t
  have ht := h t
  rw [holders_cons] at ht
  by_cases hat : key a = t
  · subst hat
    simp [Ledger.put, ht]
  · simp [Ledger.put, Function.update_of_ne (Ne.symm hat), ht, hat]

theorem Balanced.perm (h : Balanced key refs l) (hp : l.Perm l') : Balanced key refs l' := by
  intro t
  rw [h t, holders, holders, hp.countP_eq]

end Ledger
