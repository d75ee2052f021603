import Mathlib.Algebra.Order.BigOperators.Group.List
import Mathlib.Algebra.Order.Ring.Nat
import Mathlib.Tactic.Common

/-!
# A clock that wraps

Time is a natural number, and a clock of `w` bits shows it modulo `2 ^ w`. The unsigned difference of
two readings is the time between them as long as this is less than one period (`toNat_reading_sub`). The
signed difference says whether a deadline is reached, and it says so too early exactly for deadlines
more than half a period ahead (`never_early_iff`).
-/

namespace Clock

variable {w : Nat}

/-- What the clock shows at time `t`. -/
def reading (w t : Nat) : BitVec w := BitVec.ofNat w t

theorem reading_add (w s d : Nat) : reading w (s + d) = reading w s + BitVec.ofNat w d :=
  BitVec.ofNat_add s d

theorem reading_sub {s t : Nat} (h : s ≤ t) : reading w t - reading w s = BitVec.ofNat w (t - s) := by
  obtain ⟨d, rfl⟩ := Nat.exists_eq_add_of_le h
  rw [reading_add, Nat.add_sub_cancel_left, BitVec.add_comm, BitVec.add_sub_cancel]

theorem toNat_reading_sub {s t : Nat} (h : s ≤ t) (hlt : t - s < 2 ^ w) :
    (reading w t - reading w s).toNat = t - s := by
  rw [reading_sub h, BitVec.toNat_ofNat, Nat.mod_eq_of_lt hlt]

/-- The deadline is not after what the clock shows, by the sign of their difference. -/
def Reached (now deadline : BitVec w) : Prop := 0 ≤ (now - deadline).toInt

instance (now deadline : BitVec w) : Decidable (Reached now deadline) :=
  inferInstanceAs (Decidable (0 ≤ (now - deadline).toInt))

theorem reached_ahead_iff (now : BitVec w) {d : Nat} (hpos : 0 < d) (hd : d < 2 ^ w) :
    Reached now (now + BitVec.ofNat w d) ↔ 2 ^ w < 2 * d := by
  have hsub : now - (now + BitVec.ofNat w d) = - BitVec.ofNat w d := by
    rw [BitVec.sub_eq_add_neg, BitVec.neg_add, BitVec.sub_eq_add_neg, ← BitVec.add_assoc,
      BitVec.add_right_neg, BitVec.zero_add]
  unfold Reached
  rw [hsub, BitVec.toInt_pos_iff, BitVec.toNat_neg, BitVec.toNat_ofNat, Nat.mod_eq_of_lt hd,
    Nat.mod_eq_of_lt (by omega)]
  omega

theorem reached_before_iff {start n t : Nat} (ht : t < start + n) (hd : start + n - t < 2 ^ w) :
    Reached (reading w t) (reading w start + BitVec.ofNat w n) ↔ 2 ^ w < 2 * (start + n - t) := by
  have hdeadline : reading w start + BitVec.ofNat w n =
      reading w t + BitVec.ofNat w (start + n - t) := by
    rw [← reading_add, ← reading_add, Nat.add_sub_cancel' ht.le]
  rw [hdeadline]
  exact reached_ahead_iff _ (by omega) hd

/-- A deadline `n` ahead of `start` is never reached early exactly if it is at most half a period
ahead. -/
theorem never_early_iff (hw : 1 < w) (start n : Nat) :
    (∀ t, start ≤ t → Reached (reading w t) (reading w start + BitVec.ofNat w n) → start + n ≤ t) ↔
      n ≤ 2 ^ (w - 1) := by
  obtain ⟨k, rfl⟩ := Nat.exists_eq_add_of_lt hw
  have hhalf : 1 + k + 1 - 1 = k + 1 := by omega
  have hperiod : 2 ^ (1 + k + 1) = 2 * 2 ^ (k + 1) := by rw [Nat.add_comm 1 k, Nat.pow_succ']
  have hbig : 2 ≤ 2 ^ (k + 1) := Nat.le_self_pow (by omega) 2
  rw [hhalf]
  constructor
  · intro h
    by_contra hn
    -- just over half a period before the deadline the sign is already that of a deadline in the past
    have hearly := h (start + (n - 2 ^ (k + 1) - 1)) (by omega)
    rw [reached_before_iff (by omega) (by omega)] at hearly
    have hle := hearly (by omega)
    omega
  · intro hn t ht hreached
    by_contra hlt
    rw [reached_before_iff (by omega) (by omega)] at hreached
    omega

end Clock
