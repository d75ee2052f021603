import DeviceDrivers.ListFull.Garbage
import DeviceDrivers.ListSync.List

/-!
# One walk, or one for each pid

`list-full` expires the entries of one pid at a time, `list-sync` all of them at once. At one fixed
`jiffies` both walks are filters by the same test, so walks for all the pids in a list, in any order and
as often as one likes, leave what the one walk of `list-sync` leaves (`expiry_agrees`).
-/

namespace DeviceDrivers.ListFull

variable {w : Nat}

/-- The same entry in the list of `list-sync`. -/
def TaskInfo.toSync (tsk : TaskInfo w) : ListSync.TaskInfo w := ⟨tsk.pid, tsk.timestamp, tsk.cnt⟩

/-- `task_info_remove_expired` for one pid, with `jiffies` at rest. -/
def removeFor (HZ : Nat) (jiffies : BitVec w) (pid : Int) (head : List (TaskInfo w)) :
    List (TaskInfo w) :=
  taskInfoRemoveExpired HZ pid (fun _ => jiffies) head

theorem expired_eq (HZ : Nat) (pid : Int) (jiffies : BitVec w) (tsk : TaskInfo w) :
    tsk.expired HZ pid jiffies = (decide (tsk.pid = pid) && tsk.toSync.expired HZ jiffies) := by
  unfold TaskInfo.expired ListSync.TaskInfo.expired TaskInfo.toSync
  rw [Bool.and_assoc, Bool.and_comm (decide (tsk.cnt.toInt < 5))]

theorem removeExpiredFrom_const (HZ : Nat) (pid : Int) (jiffies : BitVec w) (i : Nat)
    (head : List (TaskInfo w)) :
    removeExpiredFrom HZ pid (fun _ => jiffies) i head =
      head.filter fun tsk => !tsk.expired HZ pid jiffies := by
  induction head generalizing i with
  | nil => rfl
  | cons tsk rest ih =>
    rw [removeExpiredFrom, ih (i + 1), List.filter_cons]
    cases tsk.expired HZ pid jiffies <;> rfl

theorem removeFor_eq_filter (HZ : Nat) (jiffies : BitVec w) (pid : Int) (head : List (TaskInfo w)) :
    removeFor HZ jiffies pid head = head.filter fun tsk => !tsk.expired HZ pid jiffies :=
  removeExpiredFrom_const HZ pid jiffies 0 head

theorem foldl_removeFor (HZ : Nat) (jiffies : BitVec w) (ps : List Int) (head : List (TaskInfo w)) :
    ps.foldl (fun l p => removeFor HZ jiffies p l) head =
      head.filter fun tsk => ps.all fun p => !tsk.expired HZ p jiffies := by
  induction ps generalizing head with
  | nil => simp
  | cons p ps ih =>
    rw [List.foldl_cons, ih, removeFor_eq_filter, List.filter_filter]
    apply List.filter_congr
    intro tsk _
    rw [List.all_cons, Bool.and_comm]

theorem all_not_expired {HZ : Nat} {jiffies : BitVec w} {ps : List Int} {tsk : TaskInfo w}
    (hmem : tsk.pid ∈ ps) :
    (ps.all fun p => !tsk.expired HZ p jiffies) = !tsk.toSync.expired HZ jiffies := by
  simp only [expired_eq]
  cases tsk.toSync.expired HZ jiffies with
  | false => simp
  | true =>
    simp only [Bool.and_true, Bool.not_true, List.all_eq_false]
    exact ⟨tsk.pid, hmem, by simp⟩

theorem sync_removeExpired_const (HZ : Nat) (jiffies : BitVec w) (head : List (ListSync.TaskInfo w)) :
    (ListSync.taskInfoRemoveExpired HZ (fun _ => jiffies) head).1 =
      head.filter fun ti => !ti.expired HZ jiffies := by
  have hfst : head.filter (fun ti => !ti.expired HZ jiffies) =
      ((head.zipIdx 0).filter fun x => !x.1.expired HZ jiffies).map Prod.fst := by
    conv_lhs => rw [← List.zipIdx_map_fst 0 head, List.filter_map]
    rfl
  rw [ListSync.taskInfoRemoveExpired_eq_filter, hfst]

/-- The walks of `list-full` for pids that cover the list leave what the walk of `list-sync` leaves. They
commute, a second walk for a pid does nothing, and the entries of other pids stay as they are. -/
theorem expiry_agrees (HZ : Nat) (jiffies : BitVec w) (head : List (TaskInfo w)) :
    (∀ ps : List Int, (∀ tsk ∈ head, tsk.pid ∈ ps) →
      (ps.foldl (fun l p => removeFor HZ jiffies p l) head).map TaskInfo.toSync =
        (ListSync.taskInfoRemoveExpired HZ (fun _ => jiffies) (head.map TaskInfo.toSync)).1) ∧
    (∀ p q, removeFor HZ jiffies p (removeFor HZ jiffies q head) =
      removeFor HZ jiffies q (removeFor HZ jiffies p head)) ∧
    (∀ p, removeFor HZ jiffies p (removeFor HZ jiffies p head) = removeFor HZ jiffies p head) ∧
    (∀ p, (removeFor HZ jiffies p head).filter (fun tsk => tsk.pid ≠ p) =
      head.filter fun tsk => tsk.pid ≠ p) := by
  refine ⟨?_, ?_, ?_, ?_⟩
  · intro ps hcover
    rw [foldl_removeFor, sync_removeExpired_const, List.filter_map]
    refine congrArg (List.map TaskInfo.toSync) (List.filter_congr ?_)
    intro tsk htsk
    exact all_not_expired (hcover tsk htsk)
  · intro p q
    simp only [removeFor_eq_filter, List.filter_filter]
    apply List.filter_congr
    intro tsk _
    exact Bool.and_comm _ _
  · intro p
    simp only [removeFor_eq_filter, List.filter_filter, Bool.and_self]
  · intro p
    rw [removeFor_eq_filter, List.filter_filter]
    apply List.filter_congr
    intro tsk _
    rw [expired_eq]
    by_cases hp : tsk.pid = p <;> simp [hp]

/-- Two pids, one of them twice, at the boundary of the age and of the count. -/
theorem expiry_agrees_boundary :
    ([2, 1, 2].foldl (fun l p => removeFor 100 (400 : BitVec 64) p l)
        [⟨1, 4, 99⟩, ⟨2, 4, 100⟩, ⟨1, 5, 0⟩]).map TaskInfo.toSync =
      (ListSync.taskInfoRemoveExpired 100 (fun _ => (400 : BitVec 64))
        [⟨1, 99, 4⟩, ⟨2, 100, 4⟩, ⟨1, 0, 5⟩]).1 ∧
    (ListSync.taskInfoRemoveExpired 100 (fun _ => (400 : BitVec 64))
        [⟨1, 99, 4⟩, ⟨2, 100, 4⟩, ⟨1, 0, 5⟩]).1 = [⟨2, 100, 4⟩, ⟨1, 0, 5⟩] :=
  ⟨(expiry_agrees 100 400 [⟨1, 4, 99⟩, ⟨2, 4, 100⟩, ⟨1, 5, 0⟩]).1 [2, 1, 2] (by decide), by decide⟩

end DeviceDrivers.ListFull
