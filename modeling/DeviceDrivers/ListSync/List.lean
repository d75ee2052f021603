import DeviceDrivers.Kernel

/-!
# The synchronized task list

`KernelModules/list-sync-mod/list-sync.c`. The list is a `List` of entries from `head.next` on, a pointer
into it an index. `unsigned long` has `w` bits; `HZ`, the readings of `jiffies` and the outcome of
`kmalloc` are inputs. A section between `write_lock` and `write_unlock` is one function.
-/

namespace DeviceDrivers.ListSync

variable {w : Nat}

/-- `struct task_info` without its `list_head`. -/
structure TaskInfo (w : Nat) where
  pid : Int
  timestamp : BitVec w
  count : BitVec 32
  deriving DecidableEq

/-- `task_info_alloc`; `none` is `NULL`. -/
def taskInfoAlloc (pid : Int) (kmalloc : Bool) (jiffies : BitVec w) : Option (TaskInfo w) :=
  if kmalloc then some ⟨pid, jiffies, 0⟩ else none

/-- `task_info_find_pid` -/
def taskInfoFindPid (pid : Int) (head : List (TaskInfo w)) : Option Nat :=
  head.findIdx? fun ti => ti.pid = pid

/-- The update of an entry that is already in the list. -/
def TaskInfo.refresh (jiffies : BitVec w) (ti : TaskInfo w) : TaskInfo w :=
  { ti with timestamp := jiffies, count := ti.count + 1 }

/-- The first section of `task_info_add_to_list`: the list with the entry of `pid` refreshed, `none`
if it has none. -/
def addLookup (pid : Int) (jiffies : BitVec w) (head : List (TaskInfo w)) :
    Option (List (TaskInfo w)) :=
  (taskInfoFindPid pid head).map fun i => head.modify i (TaskInfo.refresh jiffies)

/-- The second section, `list_add`; `none` is the oops of a `NULL` entry. -/
def addLink (ti : Option (TaskInfo w)) (head : List (TaskInfo w)) : Option (List (TaskInfo w)) :=
  ti.map fun ti => ti :: head

/-- `task_info_add_to_list` with nothing in between its sections. It reads `jiffies` once, in the
lookup or in the allocation. -/
def taskInfoAddToList (pid : Int) (kmalloc : Bool) (jiffies : BitVec w) (head : List (TaskInfo w)) :
    Option (List (TaskInfo w)) :=
  match addLookup pid jiffies head with
  | some head' => some head'
  | none => addLink (taskInfoAlloc pid kmalloc jiffies) head

/-- The test of `task_info_remove_expired`: an unsigned difference, a signed count. -/
def TaskInfo.expired (HZ : Nat) (jiffies : BitVec w) (ti : TaskInfo w) : Bool :=
  BitVec.ofNat w (3 * HZ) < jiffies - ti.timestamp && ti.count.toInt < 5

/-- The walk of `task_info_remove_expired` from the `i`-th visit on; `jiffies i` is what this visit
reads. The entries that stay, and those that are freed. -/
def removeExpiredFrom (HZ : Nat) (jiffies : Nat → BitVec w) :
    Nat → List (TaskInfo w) → List (TaskInfo w) × List (TaskInfo w)
  | _, [] => ([], [])
  | i, ti :: rest =>
    let r := removeExpiredFrom HZ jiffies (i + 1) rest
    if ti.expired HZ (jiffies i) then (r.1, ti :: r.2) else (ti :: r.1, r.2)

/-- `task_info_remove_expired` -/
def taskInfoRemoveExpired (HZ : Nat) (jiffies : Nat → BitVec w) (head : List (TaskInfo w)) :
    List (TaskInfo w) × List (TaskInfo w) :=
  removeExpiredFrom HZ jiffies 0 head

/-- The pids in the list, in its order. -/
def pids (head : List (TaskInfo w)) : List Int := head.map (·.pid)

theorem taskInfoFindPid_eq_none {pid : Int} {head : List (TaskInfo w)} :
    taskInfoFindPid pid head = none ↔ pid ∉ pids head := by
  unfold taskInfoFindPid pids
  rw [List.findIdx?_eq_none_iff, List.mem_map]
  constructor
  · rintro h ⟨ti, hti, rfl⟩
    simpa using h ti hti
  · intro h ti hti
    rw [decide_eq_false_iff_not]
    intro heq
    exact h ⟨ti, hti, heq⟩

theorem pids_modify_refresh (head : List (TaskInfo w)) (i : Nat) (jiffies : BitVec w) :
    pids (head.modify i (TaskInfo.refresh jiffies)) = pids head := by
  apply List.ext_getElem?
  intro k
  unfold pids
  rw [List.getElem?_map, List.getElem?_map, List.getElem?_modify]
  cases head[k]? with
  | none => rfl
  | some ti =>
    by_cases hik : i = k
    · simp [hik, TaskInfo.refresh]
    · simp [hik]

theorem addLookup_pids {pid : Int} {jiffies : BitVec w} {head head' : List (TaskInfo w)}
    (h : addLookup pid jiffies head = some head') : pids head' = pids head := by
  unfold addLookup at h
  obtain ⟨i, -, rfl⟩ := Option.map_eq_some_iff.mp h
  exact pids_modify_refresh head i jiffies

/-- The walk splits the list by the test at each visit, and keeps the order. -/
theorem removeExpiredFrom_eq_filter (HZ : Nat) (jiffies : Nat → BitVec w) (i : Nat)
    (head : List (TaskInfo w)) :
    removeExpiredFrom HZ jiffies i head =
      (((head.zipIdx i).filter fun x => !x.1.expired HZ (jiffies x.2)).map Prod.fst,
        ((head.zipIdx i).filter fun x => x.1.expired HZ (jiffies x.2)).map Prod.fst) := by
  induction head generalizing i with
  | nil => rfl
  | cons ti rest ih =>
    unfold removeExpiredFrom
    rw [ih (i + 1), List.zipIdx_cons, List.filter_cons, List.filter_cons]
    cases ti.expired HZ (jiffies i) <;> rfl

theorem taskInfoRemoveExpired_eq_filter (HZ : Nat) (jiffies : Nat → BitVec w) (head : List (TaskInfo w)) :
    taskInfoRemoveExpired HZ jiffies head =
      ((head.zipIdx.filter fun x => !x.1.expired HZ (jiffies x.2)).map Prod.fst,
        (head.zipIdx.filter fun x => x.1.expired HZ (jiffies x.2)).map Prod.fst) :=
  removeExpiredFrom_eq_filter HZ jiffies 0 head

theorem taskInfoRemoveExpired_map {α : Type*} (HZ : Nat) (jiffies : Nat → BitVec w) (f : α → TaskInfo w)
    (l : List α) :
    taskInfoRemoveExpired HZ jiffies (l.map f) =
      ((l.zipIdx.filter fun x => !(f x.1).expired HZ (jiffies x.2)).map fun x => f x.1,
        (l.zipIdx.filter fun x => (f x.1).expired HZ (jiffies x.2)).map fun x => f x.1) := by
  rw [taskInfoRemoveExpired_eq_filter, List.zipIdx_map]
  simp only [List.filter_map, List.map_map]
  rfl

theorem map_fst_filter_sublist (p : TaskInfo w × Nat → Bool) (head : List (TaskInfo w)) :
    ((head.zipIdx.filter p).map Prod.fst).Sublist head := by
  have hsub : (head.zipIdx.filter p).Sublist head.zipIdx := List.filter_sublist
  simpa only [List.zipIdx_map_fst] using hsub.map Prod.fst

theorem taskInfoRemoveExpired_sublist (HZ : Nat) (jiffies : Nat → BitVec w)
    (head : List (TaskInfo w)) : (taskInfoRemoveExpired HZ jiffies head).1.Sublist head := by
  rw [taskInfoRemoveExpired_eq_filter]
  exact map_fst_filter_sublist _ head

theorem taskInfoRemoveExpired_freed_sublist (HZ : Nat) (jiffies : Nat → BitVec w)
    (head : List (TaskInfo w)) : (taskInfoRemoveExpired HZ jiffies head).2.Sublist head := by
  rw [taskInfoRemoveExpired_eq_filter]
  exact map_fst_filter_sublist _ head

theorem taskInfoRemoveExpired_perm (HZ : Nat) (jiffies : Nat → BitVec w) (head : List (TaskInfo w)) :
    ((taskInfoRemoveExpired HZ jiffies head).1 ++ (taskInfoRemoveExpired HZ jiffies head).2).Perm head := by
  have hsplit := List.filter_append_perm (fun x => x.1.expired HZ (jiffies x.2)) head.zipIdx
  rw [taskInfoRemoveExpired_eq_filter, ← List.map_append]
  simpa only [List.zipIdx_map_fst] using (List.perm_append_comm.trans hsplit).map Prod.fst

theorem taskInfoRemoveExpired_eq_nil (HZ : Nat) (jiffies : Nat → BitVec w) (head : List (TaskInfo w)) :
    (taskInfoRemoveExpired HZ jiffies head).1 = [] ↔
      ∀ (i : Nat) (ti : TaskInfo w), head[i]? = some ti → ti.expired HZ (jiffies i) := by
  rw [taskInfoRemoveExpired_eq_filter, List.map_eq_nil_iff, List.filter_eq_nil_iff]
  simp only [Prod.forall, List.mk_mem_zipIdx_iff_getElem?, Bool.not_eq_true', Bool.not_eq_false]
  rw [forall_comm]

end DeviceDrivers.ListSync
