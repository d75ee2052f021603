import Mathlib.Data.Int.DivMod
import Mathlib.Algebra.Order.BigOperators.Group.List
import Mathlib.Algebra.Order.Ring.Nat
import Mathlib.Tactic.Common

/-!
# Kernel constants and integer conversions

The error numbers the drivers return, and the conversions between the 64-bit integer types of the
kernel's interface. A `size_t` is a `Nat` below `2 ^ 64`, an `ssize_t` an `Int`.
-/

namespace DeviceDrivers

def ESRCH : Int := 3
def EIO : Int := 5
def ENOMEM : Int := 12
def EFAULT : Int := 14
def EBUSY : Int := 16
def EINVAL : Int := 22

/-- Conversion to `size_t` (`unsigned long`). -/
def sizeT (n : Nat) : Nat := n % 2 ^ 64

/-- Conversion of a `size_t` to `ssize_t`. -/
def ssizeT (n : Nat) : Int := Int.bmod n (2 ^ 64)

theorem sizeT_of_lt {n : Nat} (h : n < 2 ^ 64) : sizeT n = n := Nat.mod_eq_of_lt h

theorem ssizeT_of_nonneg {n : Nat} (hn : n < 2 ^ 64) (h : 0 ≤ ssizeT n) : ssizeT n = n := by
  unfold ssizeT Int.bmod at h ⊢
  simp only at h ⊢
  split_ifs at h ⊢ <;> omega

theorem ssizeT_of_lt {n : Nat} (h : n < 2 ^ 63) : ssizeT n = n := by
  unfold ssizeT Int.bmod
  dsimp only
  split_ifs <;> omega

theorem ssizeT_eq_iff {size n : Nat} (hsize : size < 2 ^ 64) (hn : n < 2 ^ 63) :
    ssizeT size = n ↔ size = n := by
  constructor
  · intro h
    have hnonneg : 0 ≤ ssizeT size := by omega
    rw [ssizeT_of_nonneg hsize hnonneg] at h
    omega
  · rintro rfl
    exact ssizeT_of_lt hn

/-- What `%lx` prints. -/
def hex {w : Nat} (x : BitVec w) : String := String.ofList (Nat.toDigits 16 x.toNat)

theorem ite_lt_eq_min (a b : Nat) : (if a < b then a else b) = min a b := by
  split <;> omega

end DeviceDrivers
