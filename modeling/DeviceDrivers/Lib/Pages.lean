import Mathlib.Algebra.Order.BigOperators.Group.List
import Mathlib.Algebra.Order.Ring.Nat
import Mathlib.Data.List.Nodup
import Mathlib.Tactic.Common

/-!
# Pages

Addresses a page size `p` apart. The pages of an aligned range are the multiples of `p` in it, each once
(`mem_bases_iff`, `nodup_bases`), and a byte of the range lies in the page with the number of its distance
from the start (`base_of_byte`).
-/

namespace Pages

variable {p a n x : Nat}

/-- The first addresses of `n` pages from `a` on. -/
def bases (p a n : Nat) : List Nat := (List.range n).map fun k => a + k * p

theorem nodup_bases (hp : 0 < p) (a n : Nat) : (bases p a n).Nodup := by
  refine List.Nodup.map ?_ List.nodup_range
  intro i j hij
  exact Nat.eq_of_mul_eq_mul_right hp (Nat.add_left_cancel hij)

theorem mem_bases_iff (hp : 0 < p) (ha : p ∣ a) :
    x ∈ bases p a n ↔ a ≤ x ∧ x < a + n * p ∧ p ∣ x := by
  unfold bases
  rw [List.mem_map]
  constructor
  · rintro ⟨k, hk, rfl⟩
    have hlt : k * p < n * p := Nat.mul_lt_mul_of_pos_right (List.mem_range.mp hk) hp
    exact ⟨Nat.le_add_right _ _, by omega, Nat.dvd_add ha (Nat.dvd_mul_left p k)⟩
  · rintro ⟨hle, hlt, hx⟩
    obtain ⟨k, hk⟩ := (Nat.dvd_sub hx ha : p ∣ x - a)
    rw [Nat.mul_comm] at hk
    refine ⟨k, List.mem_range.mpr ?_, by omega⟩
    apply Nat.lt_of_mul_lt_mul_right (a := p)
    omega

theorem base_of_byte (ha : p ∣ a) (hx : a ≤ x) : x / p * p = a + (x - a) / p * p := by
  obtain ⟨d, rfl⟩ := Nat.exists_eq_add_of_le hx
  obtain ⟨c, rfl⟩ := ha
  rcases Nat.eq_zero_or_pos p with rfl | hp
  · simp
  · rw [Nat.mul_add_div hp, Nat.add_sub_cancel_left, Nat.add_mul, Nat.mul_comm c]

theorem offset_of_byte (ha : p ∣ a) (hx : a ≤ x) : x % p = (x - a) % p := by
  obtain ⟨d, rfl⟩ := Nat.exists_eq_add_of_le hx
  obtain ⟨c, rfl⟩ := ha
  rw [Nat.mul_add_mod, Nat.add_sub_cancel_left]

end Pages
