import Mathlib.Data.List.Perm.Basic
import Mathlib.Tactic.Common

/-!
# What a party holds

A party acquires resources `ρ` and gives them back. `stray` are the releases that were not its to make:
of something it never held, or holds no longer. What is given back in any order is all gone if it is all
that was held (`releaseAll_of_perm`).
-/

@[ext] structure Held (ρ : Type*) where
  held : List ρ
  stray : List ρ

namespace Held

variable {ρ : Type*} [DecidableEq ρ]

def empty : Held ρ := ⟨[], []⟩

def acquire (h : Held ρ) (r : ρ) : Held ρ := { h with held := h.held ++ [r] }

def release (h : Held ρ) (r : ρ) : Held ρ :=
  if r ∈ h.held then { h with held := h.held.erase r } else { h with stray := h.stray ++ [r] }

/-- One after another. -/
def acquireAll (h : Held ρ) (rs : List ρ) : Held ρ := rs.foldl acquire h

def releaseAll (h : Held ρ) (rs : List ρ) : Held ρ := rs.foldl release h

theorem release_of_mem {h : Held ρ} {r : ρ} (hr : r ∈ h.held) :
    h.release r = { h with held := h.held.erase r } := if_pos hr

theorem releaseAll_nil (h : Held ρ) : h.releaseAll [] = h := rfl

theorem releaseAll_singleton (h : Held ρ) (r : ρ) : h.releaseAll [r] = h.release r := rfl

theorem releaseAll_append (h : Held ρ) (rs qs : List ρ) :
    h.releaseAll (rs ++ qs) = (h.releaseAll rs).releaseAll qs := List.foldl_append

omit [DecidableEq ρ] in
theorem acquireAll_eq (h : Held ρ) (rs : List ρ) :
    h.acquireAll rs = { h with held := h.held ++ rs } := by
  induction rs generalizing h with
  | nil => simp [acquireAll]
  | cons r rs ih =>
    show (h.acquire r).acquireAll rs = _
    rw [ih]
    simp [acquire]

theorem releaseAll_of_perm {h : Held ρ} {rs : List ρ} (hp : rs.Perm h.held) :
    h.releaseAll rs = ⟨[], h.stray⟩ := by
  induction rs generalizing h with
  | nil =>
    have hnil : h.held = [] := hp.nil_eq.symm
    show h = _
    rw [← hnil]
  | cons r rs ih =>
    have hr : r ∈ h.held := hp.subset List.mem_cons_self
    show (h.release r).releaseAll rs = _
    rw [release_of_mem hr]
    exact ih (List.cons_perm_iff_perm_erase.mp hp).2

end Held
