import DeviceDrivers.Lib.Clock
import DeviceDrivers.ListSync.List

/-!
# Expiry and the clock

`jiffies` wraps, so the age of an entry is computed from two readings of a clock that may have wrapped in
between, or in the middle of the walk. With true times beside the stamps the walk of
`task_info_remove_expired` frees exactly the entries that are old and little used (`expiry_exact`).
-/

namespace DeviceDrivers.ListSync

open Clock

variable {w : Nat}

/-- An entry with the true time of its stamp. -/
structure Stamped where
  pid : Int
  count : BitVec 32
  time : Nat
  deriving DecidableEq

/-- What the list holds of it. -/
def Stamped.entry (w : Nat) (e : Stamped) : TaskInfo w := ⟨e.pid, reading w e.time, e.count⟩

/-- It is little used and, at time `t`, more than `3 * HZ` jiffies old. -/
def Stamped.expired (HZ t : Nat) (e : Stamped) : Bool := e.count.toInt < 5 && 3 * HZ < t - e.time

/-- An entry is visited after its stamp, less than one period of the clock later. -/
def Stamped.VisitedAt (w t : Nat) (e : Stamped) : Prop := e.time ≤ t ∧ t - e.time < 2 ^ w

theorem lt_reading_sub_iff {HZ s t : Nat} (hHZ : 3 * HZ < 2 ^ w) (h : s ≤ t) (hlt : t - s < 2 ^ w) :
    BitVec.ofNat w (3 * HZ) < reading w t - reading w s ↔ 3 * HZ < t - s := by
  rw [BitVec.lt_def, toNat_reading_sub h hlt, BitVec.toNat_ofNat, Nat.mod_eq_of_lt hHZ]

theorem expired_entry {HZ t : Nat} (hHZ : 3 * HZ < 2 ^ w) {e : Stamped} (he : e.VisitedAt w t) :
    (e.entry w).expired HZ (reading w t) = e.expired HZ t := by
  have hage := lt_reading_sub_iff hHZ he.1 he.2
  unfold TaskInfo.expired Stamped.expired Stamped.entry
  rw [decide_eq_decide.mpr hage, Bool.and_comm]

theorem removeExpired_stamped {HZ : Nat} (hHZ : 3 * HZ < 2 ^ w) {l : List Stamped} {times : Nat → Nat}
    (hvisit : ∀ (i : Nat) (e : Stamped), l[i]? = some e → e.VisitedAt w (times i)) :
    taskInfoRemoveExpired HZ (fun i => reading w (times i)) (l.map (Stamped.entry w)) =
      ((l.zipIdx.filter fun x => !x.1.expired HZ (times x.2)).map fun x => x.1.entry w,
        (l.zipIdx.filter fun x => x.1.expired HZ (times x.2)).map fun x => x.1.entry w) := by
  have htest : ∀ x ∈ l.zipIdx, (x.1.entry w).expired HZ (reading w (times x.2)) =
      x.1.expired HZ (times x.2) := by
    rintro ⟨e, i⟩ hx
    exact expired_entry hHZ (hvisit i e (List.mk_mem_zipIdx_iff_getElem?.mp hx))
  rw [taskInfoRemoveExpired_map]
  apply Prod.ext
  · refine congrArg (List.map _) (List.filter_congr ?_)
    intro x hx
    exact congrArg not (htest x hx)
  · refine congrArg (List.map _) (List.filter_congr ?_)
    intro x hx
    exact htest x hx

/-- Whatever the clock does between the stamps and the visits, the walk frees exactly the entries with a
count below `5` whose true age at their visit is more than `3 * HZ`. The others stay as they are and in
their order. -/
theorem expiry_exact (hw : 32 ≤ w) (HZ : Nat) (hHZ : 3 * HZ < 2 ^ 31) (l : List Stamped)
    (times : Nat → Nat)
    (hvisit : ∀ i e, l[i]? = some e → e.time ≤ times i ∧ times i - e.time < 2 ^ w) :
    taskInfoRemoveExpired HZ (fun i => reading w (times i)) (l.map (Stamped.entry w)) =
      ((l.zipIdx.filter fun x => ¬ (x.1.count.toInt < 5 ∧ 3 * HZ < times x.2 - x.1.time)).map
          fun x => x.1.entry w,
        (l.zipIdx.filter fun x => x.1.count.toInt < 5 ∧ 3 * HZ < times x.2 - x.1.time).map
          fun x => x.1.entry w) := by
  have hwide : 2 ^ 31 ≤ 2 ^ w := Nat.pow_le_pow_right (by omega) (by omega)
  rw [removeExpired_stamped (by omega) hvisit]
  simp only [Stamped.expired, decide_not, Bool.decide_and]

/-- A clock of `32` bits wraps between the stamps and the walk, and once more in the middle of it. -/
theorem expiry_exact_wrapped :
    taskInfoRemoveExpired 100 (fun i => reading 32 (2 ^ 32 + [100, 200, 2 ^ 32 + 200][i]!))
        [⟨1, reading 32 (2 ^ 32 - 200), 4⟩, ⟨2, reading 32 (2 ^ 32 - 101), 4⟩,
          ⟨3, reading 32 (2 ^ 33 - 100), 0⟩] =
      ([⟨1, reading 32 (2 ^ 32 - 200), 4⟩, ⟨3, reading 32 (2 ^ 33 - 100), 0⟩],
        [⟨2, reading 32 (2 ^ 32 - 101), 4⟩]) := by
  have h := @expiry_exact 32 (by decide) 100 (by decide)
    [⟨1, 4, 2 ^ 32 - 200⟩, ⟨2, 4, 2 ^ 32 - 101⟩, ⟨3, 0, 2 ^ 33 - 100⟩]
    (fun i => 2 ^ 32 + [100, 200, 2 ^ 32 + 200][i]!) ?_
  · exact h.trans (by decide)
  · intro i e he
    match i with
    | 0 => obtain rfl := Option.some.inj he; decide
    | 1 => obtain rfl := Option.some.inj he; decide
    | 2 => obtain rfl := Option.some.inj he; decide
    | _ + 3 => cases he

end DeviceDrivers.ListSync
