import DeviceDrivers.Lib.Machine
import DeviceDrivers.ListSync.List

/-!
# The module exit of the task list

`list_sync_init` fills the list, the other module makes the exported calls, and `list_sync_exit` writes
`10` to the `count` of `list_entry(head.prev)` without a look at whether the list is empty. Where it is,
`head.prev` is the list head, no entry at all. Adding never empties the list; only a
`task_info_remove_expired` that finds every entry expired does, and only if it is the last call
(`exit_marks_entry_iff`).
-/

namespace DeviceDrivers.ListSync

variable {w : Nat}

/-- The pids of `current`, of its parent and of the next two tasks. -/
structure Current where
  pid : Int
  parent : Int
  next : Int
  nextNext : Int

/-- `task_info_add_for_current`; every one of its four calls has its own outcome of `kmalloc` and its
own reading of `jiffies`. -/
def taskInfoAddForCurrent (current : Current) (kmalloc : Fin 4 → Bool) (jiffies : Fin 4 → BitVec w)
    (head : List (TaskInfo w)) : Option (List (TaskInfo w)) := do
  let head ← taskInfoAddToList current.pid (kmalloc 0) (jiffies 0) head
  let head ← taskInfoAddToList current.parent (kmalloc 1) (jiffies 1) head
  let head ← taskInfoAddToList current.next (kmalloc 2) (jiffies 2) head
  taskInfoAddToList current.nextNext (kmalloc 3) (jiffies 3) head

/-- `list_sync_init`, up to its sleep. -/
def listSyncInit (current : Current) (kmalloc : Fin 4 → Bool) (jiffies : Fin 4 → BitVec w) :
    Option (List (TaskInfo w)) :=
  taskInfoAddForCurrent current kmalloc jiffies []

/-- `task_info_purge_list`: the entries that stay, and those that are freed. -/
def taskInfoPurgeList : List (TaskInfo w) → List (TaskInfo w) × List (TaskInfo w)
  | [] => ([], [])
  | ti :: rest =>
    let r := taskInfoPurgeList rest
    (r.1, ti :: r.2)

/-- `atomic_set(&ti->count, 10)` on `list_entry(head.prev)`; `none` is the write beside the list head of
an empty list. -/
def markLast (head : List (TaskInfo w)) : Option (List (TaskInfo w)) :=
  head.getLast?.map fun ti => head.dropLast ++ [{ ti with count := 10 }]

/-- The list after each part of `list_sync_exit`, and the entries that expire there. -/
structure ExitTrace (w : Nat) where
  marked : List (TaskInfo w)
  kept : List (TaskInfo w)
  freed : List (TaskInfo w)
  purged : List (TaskInfo w)

/-- `list_sync_exit` -/
def listSyncExit (HZ : Nat) (jiffies : Nat → BitVec w) (head : List (TaskInfo w)) :
    Option (ExitTrace w) :=
  (markLast head).map fun marked =>
    let r := taskInfoRemoveExpired HZ jiffies marked
    ⟨marked, r.1, r.2, (taskInfoPurgeList r.1).1⟩

/-- The exported functions that change the list. -/
inductive ExportedCall (w : Nat)
  | addForCurrent (current : Current) (kmalloc : Fin 4 → Bool) (jiffies : Fin 4 → BitVec w)
  | removeExpired (jiffies : Nat → BitVec w)

def exportedStep (HZ : Nat) (head : List (TaskInfo w)) : ExportedCall w → Option (List (TaskInfo w) × Unit)
  | .addForCurrent current kmalloc jiffies =>
    (taskInfoAddForCurrent current kmalloc jiffies head).map fun head' => (head', ())
  | .removeExpired jiffies => some ((taskInfoRemoveExpired HZ jiffies head).1, ())

def exported (w HZ : Nat) : Machine (List (TaskInfo w)) (ExportedCall w) Unit := ⟨[], exportedStep HZ⟩

/-! ### Adding leaves an entry, marking keeps one, purging leaves none -/

theorem taskInfoAddToList_ne_nil {pid : Int} {kmalloc : Bool} {jiffies : BitVec w}
    {head head' : List (TaskInfo w)} (h : taskInfoAddToList pid kmalloc jiffies head = some head') :
    head' ≠ [] := by
  unfold taskInfoAddToList at h
  cases hlook : addLookup pid jiffies head with
  | some l =>
    rw [hlook] at h
    obtain rfl := Option.some.inj h
    obtain ⟨i, hi, rfl⟩ := Option.map_eq_some_iff.mp hlook
    obtain ⟨hlt, -⟩ := List.findIdx?_eq_some_iff_getElem.mp hi
    apply List.ne_nil_of_length_pos
    rw [List.length_modify]
    omega
  | none =>
    rw [hlook] at h
    obtain ⟨ti, -, rfl⟩ := Option.map_eq_some_iff.mp h
    exact List.cons_ne_nil _ _

theorem taskInfoAddForCurrent_ne_nil {current : Current} {kmalloc : Fin 4 → Bool}
    {jiffies : Fin 4 → BitVec w} {head head' : List (TaskInfo w)}
    (h : taskInfoAddForCurrent current kmalloc jiffies head = some head') : head' ≠ [] := by
  simp only [taskInfoAddForCurrent, Option.bind_eq_bind, Option.bind_eq_some_iff] at h
  obtain ⟨_, _, _, _, _, _, hlast⟩ := h
  exact taskInfoAddToList_ne_nil hlast

theorem taskInfoPurgeList_nil (head : List (TaskInfo w)) : (taskInfoPurgeList head).1 = [] := by
  induction head with
  | nil => rfl
  | cons ti rest ih => exact ih

theorem taskInfoRemoveExpired_concat (HZ : Nat) (jiffies : Nat → BitVec w) (head : List (TaskInfo w))
    {ti : TaskInfo w} (h : ∀ j, ti.expired HZ j = false) :
    taskInfoRemoveExpired HZ jiffies (head ++ [ti]) =
      ((taskInfoRemoveExpired HZ jiffies head).1 ++ [ti], (taskInfoRemoveExpired HZ jiffies head).2) := by
  simp [taskInfoRemoveExpired_eq_filter, List.zipIdx_append, h]

/-! ### The exit -/

/-- The exit marks the last entry, frees only entries before it, keeps it until the purge, and leaves
nothing. -/
structure MarksEntry (head : List (TaskInfo w)) (x : ExitTrace w) : Prop where
  entry : ∃ earlier ti, head = earlier ++ [ti] ∧ x.marked = earlier ++ [{ ti with count := 10 }]
  survives : x.kept.getLast? = x.marked.getLast?
  freed : x.freed.Sublist x.marked.dropLast
  purged : x.purged = []

theorem listSyncExit_marks (HZ : Nat) (jiffies : Nat → BitVec w) (head : List (TaskInfo w)) :
    (∃ x, listSyncExit HZ jiffies head = some x ∧ MarksEntry head x) ↔ head ≠ [] := by
  constructor
  · rintro ⟨x, -, hx⟩ rfl
    obtain ⟨earlier, ti, heq, -⟩ := hx.entry
    simp at heq
  · intro hne
    obtain ⟨earlier, ti, rfl⟩ := (List.eq_nil_or_concat head).resolve_left hne
    rw [List.concat_eq_append]
    have hmark : markLast (earlier ++ [ti]) = some (earlier ++ [{ ti with count := 10 }]) := by
      unfold markLast
      rw [List.getLast?_concat, List.dropLast_concat]
      rfl
    have hten : ∀ j, TaskInfo.expired HZ j { ti with count := 10 } = false := by
      intro j
      exact Bool.and_false _
    refine ⟨_, by rw [listSyncExit, hmark]; rfl, ⟨earlier, ti, rfl, rfl⟩, ?_, ?_, ?_⟩
    · show (taskInfoRemoveExpired HZ jiffies _).1.getLast? = _
      rw [taskInfoRemoveExpired_concat HZ jiffies earlier hten, List.getLast?_concat, List.getLast?_concat]
    · show (taskInfoRemoveExpired HZ jiffies _).2.Sublist _
      rw [taskInfoRemoveExpired_concat HZ jiffies earlier hten, List.dropLast_concat]
      exact taskInfoRemoveExpired_freed_sublist HZ jiffies earlier
    · exact taskInfoPurgeList_nil _

/-- If the last of the calls is a `task_info_remove_expired`, it finds an entry that is not expired. -/
def LastFindsLive (HZ : Nat) (head : List (TaskInfo w)) (calls : List (ExportedCall w)) : Prop :=
  ∀ pre jiffies before os, calls = pre ++ [.removeExpired jiffies] →
    (exported w HZ).runFrom head pre = some (before, os) →
      ∃ (i : Nat) (ti : TaskInfo w), before[i]? = some ti ∧ ti.expired HZ (jiffies i) = false

theorem exported_ne_nil_iff {HZ : Nat} {current : Current} {kmalloc : Fin 4 → Bool}
    {jiffies : Fin 4 → BitVec w} {head₀ head : List (TaskInfo w)} {calls : List (ExportedCall w)}
    {os : List Unit} (hinit : listSyncInit current kmalloc jiffies = some head₀)
    (hrun : (exported w HZ).runFrom head₀ calls = some (head, os)) :
    head ≠ [] ↔ LastFindsLive HZ head₀ calls := by
  rcases List.eq_nil_or_concat calls with rfl | ⟨pre, last, rfl⟩
  · obtain ⟨rfl, -⟩ := Prod.mk.inj (Option.some.inj hrun)
    apply iff_of_true (taskInfoAddForCurrent_ne_nil hinit)
    intro pre j before os' heq
    simp at heq
  rw [List.concat_eq_append] at hrun ⊢
  obtain ⟨before, os', o, hpre, hlast, -⟩ := (exported w HZ).runFrom_concat_eq_some.mp hrun
  cases last with
  | addForCurrent cur km js =>
    obtain ⟨head', hadd, heq⟩ := Option.map_eq_some_iff.mp hlast
    obtain ⟨rfl, -⟩ := Prod.mk.inj heq
    apply iff_of_true (taskInfoAddForCurrent_ne_nil hadd)
    intro pre' j before' os'' heq
    simp at heq
  | removeExpired js =>
    obtain ⟨rfl, -⟩ := Prod.mk.inj (Option.some.inj hlast)
    have hnil := taskInfoRemoveExpired_eq_nil HZ js before
    constructor
    · intro hne pre' j before' os'' heq hpre'
      obtain ⟨rfl, hj⟩ := List.append_inj heq (by simpa using congrArg List.length heq)
      obtain rfl : js = j := by simpa using hj
      obtain ⟨rfl, -⟩ := Prod.mk.inj (Option.some.inj (hpre.symm.trans hpre'))
      by_contra hnone
      apply hne
      apply hnil.mpr
      intro i ti hi
      by_contra hlive
      exact hnone ⟨i, ti, hi, by simpa using hlive⟩
    · intro h hempty
      obtain ⟨i, ti, hi, hlive⟩ := h pre js before os' rfl hpre
      have hexp := hnil.mp hempty i ti hi
      rw [hlive] at hexp
      cases hexp

/-- `list_sync_exit` marks an entry of the list, which then outlives the expired ones and is purged with
the others, exactly if the last exported call was not a `task_info_remove_expired` that found every
entry expired. -/
theorem exit_marks_entry_iff (HZ : Nat) {current : Current} {kmalloc : Fin 4 → Bool}
    {jiffies : Fin 4 → BitVec w} {head₀ head : List (TaskInfo w)} {calls : List (ExportedCall w)}
    {os : List Unit} (hinit : listSyncInit current kmalloc jiffies = some head₀)
    (hrun : (exported w HZ).runFrom head₀ calls = some (head, os)) (exitJiffies : Nat → BitVec w) :
    (∃ x, listSyncExit HZ exitJiffies head = some x ∧ MarksEntry head x) ↔
      LastFindsLive HZ head₀ calls :=
  (listSyncExit_marks HZ exitJiffies head).trans (exported_ne_nil_iff hinit hrun)

/-- The list after `list_sync_init` at time `0`. -/
def firstEntries : List (TaskInfo 64) := [⟨13, 0, 0⟩, ⟨12, 0, 0⟩, ⟨1, 0, 0⟩, ⟨11, 0, 0⟩]

theorem listSyncInit_firstEntries :
    listSyncInit ⟨11, 1, 12, 13⟩ (fun _ => true) (fun _ => (0 : BitVec 64)) = some firstEntries := by rfl

/-- The other module is loaded right after this one and unloaded four seconds later: all entries are
gone then, and the exit marks the list head. -/
theorem exit_marks_list_head :
    ∃ head os, listSyncInit ⟨11, 1, 12, 13⟩ (fun _ => true) (fun _ => (0 : BitVec 64)) = some firstEntries ∧
      (exported 64 250).runFrom firstEntries
        [.addForCurrent ⟨21, 1, 22, 23⟩ (fun _ => true) (fun _ => 10), .removeExpired fun _ => 1010] =
          some (head, os) ∧
      ¬ ∃ x, listSyncExit 250 (fun _ => 1020) head = some x ∧ MarksEntry head x := by
  refine ⟨[], [(), ()], listSyncInit_firstEntries, rfl, ?_⟩
  rw [listSyncExit_marks]
  exact fun h => h rfl

/-- Unloaded one second later, the last call finds all entries alive. -/
theorem exit_marks_entry_iff_unloaded_early :
    LastFindsLive 250 firstEntries [.removeExpired fun _ => 250] := by
  have hrun : (exported 64 250).runFrom firstEntries [.removeExpired fun _ => 250] =
      some (firstEntries, [()]) := by rfl
  rw [← exit_marks_entry_iff 250 listSyncInit_firstEntries hrun fun _ => 300, listSyncExit_marks]
  decide

end DeviceDrivers.ListSync
