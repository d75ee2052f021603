import DeviceDrivers.Lib.Machine
import DeviceDrivers.ListSync.List

/-!
# Concurrent calls on the task list

`task_info_add_to_list` looks the pid up in one critical section and links a new entry in another, with
the allocation between them. A step of `listSync` is one section or one allocation, and any number of
calls are under way. Two calls for one pid can both miss it and both link an entry: the pids are
distinct in all states of a run exactly when every link is made while the lookup would still miss
(`pids_distinct_iff`).
-/

namespace DeviceDrivers.ListSync

variable {w : Nat}

/-- Where a `task_info_add_to_list` stands: returned, about to allocate, or about to link. -/
inductive AddPc (w : Nat)
  | returned
  | allocating (pid : Int)
  | linking (ti : Option (TaskInfo w))

/-- The list, and the calls of `task_info_add_to_list` in the order they began. -/
structure Sys (w : Nat) where
  head : List (TaskInfo w)
  adds : List (AddPc w)

inductive ListEvent (w : Nat)
  | add (pid : Int) (jiffies : BitVec w)
  | alloc (i : Nat) (kmalloc : Bool) (jiffies : BitVec w)
  | link (i : Nat)
  | removeExpired (jiffies : Nat → BitVec w)

/-- The output is the entries that are freed. There is no step past an oops. -/
def listSyncStep (HZ : Nat) (s : Sys w) : ListEvent w → Option (Sys w × List (TaskInfo w))
  | .add pid jiffies =>
    match addLookup pid jiffies s.head with
    | some head => some (⟨head, s.adds ++ [.returned]⟩, [])
    | none => some (⟨s.head, s.adds ++ [.allocating pid]⟩, [])
  | .alloc i kmalloc jiffies =>
    match s.adds[i]? with
    | some (.allocating pid) =>
      some (⟨s.head, s.adds.set i (.linking (taskInfoAlloc pid kmalloc jiffies))⟩, [])
    | _ => none
  | .link i =>
    match s.adds[i]? with
    | some (.linking ti) =>
      (addLink ti s.head).map fun head => (⟨head, s.adds.set i .returned⟩, [])
    | _ => none
  | .removeExpired jiffies =>
    let r := taskInfoRemoveExpired HZ jiffies s.head
    some (⟨r.1, s.adds⟩, r.2)

def listSync (w HZ : Nat) : Machine (Sys w) (ListEvent w) (List (TaskInfo w)) :=
  ⟨⟨[], []⟩, listSyncStep HZ⟩

theorem listSyncStep_cases {HZ : Nat} {s t : Sys w} {e : ListEvent w} {o : List (TaskInfo w)}
    (h : listSyncStep HZ s e = some (t, o)) :
    (∃ pid jiffies head, e = .add pid jiffies ∧ addLookup pid jiffies s.head = some head ∧
      t = ⟨head, s.adds ++ [.returned]⟩ ∧ o = []) ∨
    (∃ pid jiffies, e = .add pid jiffies ∧ taskInfoFindPid pid s.head = none ∧
      t = ⟨s.head, s.adds ++ [.allocating pid]⟩ ∧ o = []) ∨
    (∃ i kmalloc jiffies pid, e = .alloc i kmalloc jiffies ∧ s.adds[i]? = some (.allocating pid) ∧
      t = ⟨s.head, s.adds.set i (.linking (taskInfoAlloc pid kmalloc jiffies))⟩ ∧ o = []) ∨
    (∃ i ti, e = .link i ∧ s.adds[i]? = some (.linking (some ti)) ∧
      t = ⟨ti :: s.head, s.adds.set i .returned⟩ ∧ o = []) ∨
    (∃ jiffies, e = .removeExpired jiffies ∧
      t = ⟨(taskInfoRemoveExpired HZ jiffies s.head).1, s.adds⟩ ∧
      o = (taskInfoRemoveExpired HZ jiffies s.head).2) := by
  cases e with
  | add pid jiffies =>
    cases hlook : addLookup pid jiffies s.head with
    | some head =>
      simp only [listSyncStep, hlook] at h
      obtain ⟨rfl, rfl⟩ := Prod.mk.inj (Option.some.inj h)
      left
      exact ⟨pid, jiffies, head, rfl, hlook, rfl, rfl⟩
    | none =>
      simp only [listSyncStep, hlook] at h
      obtain ⟨rfl, rfl⟩ := Prod.mk.inj (Option.some.inj h)
      right; left
      exact ⟨pid, jiffies, rfl, Option.map_eq_none_iff.mp hlook, rfl, rfl⟩
  | alloc i kmalloc jiffies =>
    simp only [listSyncStep] at h
    split at h
    · next pid hi =>
      obtain ⟨rfl, rfl⟩ := Prod.mk.inj (Option.some.inj h)
      right; right; left
      exact ⟨i, kmalloc, jiffies, pid, rfl, hi, rfl, rfl⟩
    · simp at h
  | link i =>
    simp only [listSyncStep] at h
    split at h
    · next ti hi =>
      obtain ⟨head, hlink, heq⟩ := Option.map_eq_some_iff.mp h
      obtain ⟨rfl, rfl⟩ := Prod.mk.inj heq
      obtain ⟨entry, rfl, rfl⟩ := Option.map_eq_some_iff.mp hlink
      right; right; right; left
      exact ⟨i, entry, rfl, hi, rfl, rfl⟩
    · simp at h
  | removeExpired jiffies =>
    obtain ⟨rfl, rfl⟩ := Prod.mk.inj (Option.some.inj h)
    right; right; right; right
    exact ⟨jiffies, rfl, rfl, rfl⟩

/-- A call whose sections run with nothing in between is `task_info_add_to_list`. -/
theorem add_alone (HZ : Nat) (s : Sys w) (pid : Int) (kmalloc : Bool) (jiffies : BitVec w)
    {head : List (TaskInfo w)} (h : taskInfoAddToList pid kmalloc jiffies s.head = some head) :
    ∃ es os, (listSync w HZ).runFrom s (.add pid jiffies :: es) =
      some (⟨head, s.adds ++ [.returned]⟩, os) := by
  cases hlook : addLookup pid jiffies s.head with
  | some head' =>
    obtain rfl : head' = head := by simpa [taskInfoAddToList, hlook] using h
    refine ⟨[], [[]], ?_⟩
    simp [Machine.runFrom_cons, listSync, listSyncStep, hlook]
  | none =>
    have hlink : addLink (taskInfoAlloc pid kmalloc jiffies) s.head = some head := by
      simpa [taskInfoAddToList, hlook] using h
    refine ⟨[.alloc s.adds.length kmalloc jiffies, .link s.adds.length], [[], [], []], ?_⟩
    simp [Machine.runFrom_cons, listSync, listSyncStep, hlook, hlink]

/-! ### Distinct pids -/

/-- No two entries of the list have the same pid. -/
def PidsDistinct (s : Sys w) : Prop := (pids s.head).Nodup

/-- If the step links an entry, the lookup for its pid would still miss. -/
def LinksMissing (s : Sys w) (e : ListEvent w) : Prop :=
  ∀ i ti, e = .link i → s.adds[i]? = some (.linking (some ti)) →
    taskInfoFindPid ti.pid s.head = none

theorem pidsDistinct_step {HZ : Nat} {s t : Sys w} {e : ListEvent w} {o : List (TaskInfo w)}
    (hs : PidsDistinct s) (hstep : (listSync w HZ).step s e = some (t, o)) :
    PidsDistinct t ↔ LinksMissing s e := by
  obtain ⟨pid, jiffies, head, rfl, hlook, rfl, -⟩ | ⟨pid, jiffies, rfl, -, rfl, -⟩ |
    ⟨i, kmalloc, jiffies, pid, rfl, -, rfl, -⟩ | ⟨i, ti, rfl, hi, rfl, -⟩ | ⟨jiffies, rfl, rfl, -⟩ :=
      listSyncStep_cases hstep
  · have ht : (pids head).Nodup := by
      rw [addLookup_pids hlook]
      exact hs
    exact iff_of_true ht (by simp [LinksMissing])
  · exact iff_of_true hs (by simp [LinksMissing])
  · exact iff_of_true hs (by simp [LinksMissing])
  · -- the new head has a pid of its own exactly if the lookup misses it
    have hcons : (pids (ti :: s.head)).Nodup ↔ taskInfoFindPid ti.pid s.head = none := by
      rw [taskInfoFindPid_eq_none]
      exact List.nodup_cons.trans (and_iff_left hs)
    apply hcons.trans
    constructor
    · intro hmiss j tj heq hj
      obtain rfl : i = j := by simpa using heq
      obtain rfl : ti = tj := by simpa [hi] using hj
      exact hmiss
    · intro h
      exact h i ti rfl hi
  · have ht : (pids (taskInfoRemoveExpired HZ jiffies s.head).1).Nodup :=
      hs.sublist ((taskInfoRemoveExpired_sublist HZ jiffies s.head).map _)
    exact iff_of_true ht (by simp [LinksMissing])

/-- The list holds at most one entry for each pid in every state of a run exactly when every link is
made while the lookup of its pid would still miss. -/
theorem pids_distinct_iff (HZ : Nat) {es : List (ListEvent w)} {s : Sys w}
    {os : List (List (TaskInfo w))} (hrun : (listSync w HZ).run es = some (s, os)) :
    (listSync w HZ).Always PidsDistinct es ↔ (listSync w HZ).EveryStep LinksMissing es :=
  Machine.always_iff_everyStep (Machine.invariant_true _) List.nodup_nil (fun _ => pidsDistinct_step)
    hrun

/-- Two calls for pid `7`: both look it up before either links its entry. -/
def racingAdds : List (ListEvent 64) :=
  [.add 7 100, .add 7 100, .alloc 0 true 100, .alloc 1 true 100, .link 0, .link 1]

theorem racingAdds_repeats {s : Sys 64} {os : List (List (TaskInfo 64))}
    (hrun : (listSync 64 250).run racingAdds = some (s, os)) : ¬ PidsDistinct s := by
  obtain ⟨rfl, -⟩ := Prod.mk.inj (Option.some.inj hrun)
  unfold PidsDistinct
  decide

theorem two_entries_for_one_pid : ¬ (listSync 64 250).Always PidsDistinct racingAdds := by
  intro h
  exact racingAdds_repeats rfl (h.last rfl)

/-- The race has a link whose lookup would hit. -/
theorem pids_distinct_iff_racingAdds : ¬ (listSync 64 250).EveryStep LinksMissing racingAdds := by
  intro h
  have halways := (pids_distinct_iff 250 rfl).mpr h
  exact racingAdds_repeats rfl (halways.last rfl)

end DeviceDrivers.ListSync
