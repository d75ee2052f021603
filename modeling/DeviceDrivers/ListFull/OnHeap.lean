import DeviceDrivers.Lib.Machine
import DeviceDrivers.Lib.Sweep
import DeviceDrivers.ListFull.Garbage

/-!
# The list of `list-full` on its nodes

`KernelModules/kernel-Lists-full-mod/list-full.c` once more, with the pointers that its functions follow and the
memory they get and free. Whatever calls are made between loading and unloading, none of them touches a node that
is not there; the calls do what the functions on lists do, `exit_full_kernel_list` prints that list, and when it
returns no `taskInfo` is left (`list_full_lifetime`).
-/

namespace DeviceDrivers.ListFull

open ListHead

namespace OnHeap

variable {ι : Type} {w : Nat}

/-- Memory from `kmalloc`: where it is, and what the links and `cnt` in it hold. -/
structure Block (ι : Type) where
  addr : ι
  links : Links ι
  cnt : BitVec 32

/-- `print_task_info` -/
def printTaskInfo (t : TaskInfo w) : List String :=
  ["[LOG] PID: " ++ toString t.pid ++ "\n", "[LOG] CNT: " ++ toString t.cnt.toInt ++ "\n",
    "[LOG] timestamp: " ++ hex t.timestamp ++ "\n"]

section Code

variable [DecidableEq ι]

/-- The loop of `print_full_list`, with what it has printed so far. -/
def printBody (p : ι) (h : Heap ι (TaskInfo w)) (log : List String) :
    Option (Heap ι (TaskInfo w) × List String) := do
  let t ← h.payload p
  some (h, log ++ printTaskInfo t)

/-- `print_full_list` -/
def printFullList (fuel : Nat) (h : Heap ι (TaskInfo w)) : Option (List String) :=
  (listForEachSafe printBody fuel h []).map Prod.snd

/-- `alloc_task_info`; `kmalloc` is `none` for `NULL`. -/
def allocTaskInfo (pid : Int) (kmalloc : Option (Block ι)) (jiffies : BitVec w) (h : Heap ι (TaskInfo w)) :
    Option (Heap ι (TaskInfo w) × Option ι) :=
  match kmalloc with
  | none => some (h, none)
  | some m => (h.kmalloc m.addr m.links ⟨pid, m.cnt + 1, jiffies⟩).map fun h => (h, some m.addr)

/-- `task_info_add_for_current` -/
def taskInfoAddForCurrent (pid : Int) (kmalloc : Option (Block ι)) (jiffies : BitVec w)
    (h : Heap ι (TaskInfo w)) : Option (Heap ι (TaskInfo w)) := do
  match ← allocTaskInfo pid kmalloc jiffies h with
  | (h, none) => some h
  | (h, some tsk) =>
    let h ← h.initListHead (.node tsk)
    h.listAdd tsk

/-- `task_info_find_pid` -/
def taskInfoFindPid (pid : Int) (fuel : Nat) (h : Heap ι (TaskInfo w)) : Option (Option ι) :=
  listForEachSafeFind (fun tsk => tsk.pid = pid) fuel h

/-- `task_info_purge_list` -/
def taskInfoPurgeList (fuel : Nat) (h : Heap ι (TaskInfo w)) : Option (Heap ι (TaskInfo w)) :=
  (listForEachSafe discardNode fuel h ()).map Prod.fst

/-- The loop of `task_info_remove_expired` in its `i`-th round. -/
def removeExpiredBody (HZ : Nat) (pid : Int) (jiffies : Nat → BitVec w) (p : ι) (h : Heap ι (TaskInfo w))
    (i : Nat) : Option (Heap ι (TaskInfo w) × Nat) := do
  let tsk ← h.payload p
  if tsk.expired HZ pid (jiffies i) then
    let h ← h.discard p
    some (h, i + 1)
  else some (h, i + 1)

/-- `task_info_remove_expired` -/
def taskInfoRemoveExpired (HZ : Nat) (pid : Int) (jiffies : Nat → BitVec w) (fuel : Nat)
    (h : Heap ι (TaskInfo w)) : Option (Heap ι (TaskInfo w)) :=
  (listForEachSafe (removeExpiredBody HZ pid jiffies) fuel h 0).map Prod.fst

/-- What `exit_full_kernel_list` prints in the end. -/
def farewell : List String :=
  ["[LOG] Successfully purged the linked list", "[LOG] unloading the kernel list module\n"]

/-- `exit_full_kernel_list` -/
def exitFullKernelList (fuel : Nat) (h : Heap ι (TaskInfo w)) : Option (Heap ι (TaskInfo w) × List String) := do
  let log ← printFullList fuel h
  let h ← taskInfoPurgeList fuel h
  some (h, log ++ farewell)

end Code

inductive Call (ι : Type) (w : Nat)
  | add (pid : Int) (kmalloc : Option (Block ι)) (jiffies : BitVec w)
  | findPid (pid : Int)
  | removeExpired (pid : Int) (jiffies : Nat → BitVec w)

/-- The calls of `init_full_kernel_list`; `pid k` is the `k`-th ancestor of `current`. -/
def initFullKernelList (pid : Nat → Int) (kmalloc : Nat → Option (Block ι)) (jiffies walk : Nat → BitVec w) :
    List (Call ι w) :=
  [.add (pid 0) (kmalloc 0) (jiffies 0), .add (pid 1) (kmalloc 1) (jiffies 1),
    .add (pid 2) (kmalloc 2) (jiffies 2), .add (pid 3) (kmalloc 3) (jiffies 3), .findPid (pid 1),
    .removeExpired (pid 2) walk]

/-- `kmalloc` returns memory that is not in use. -/
def Call.Fresh (h : Heap ι (TaskInfo w)) : Call ι w → Prop
  | .add _ (some m) _ => h.payload m.addr = none
  | _ => True

/-- What `INIT_LIST_HEAD(&head)` leaves before the first call. -/
def noTasks (ι : Type) (w : Nat) : Heap ι (TaskInfo w) := ⟨⟨.head, .head⟩, fun _ => none⟩

/-- The output is the entry that `task_info_find_pid` returns, read there and then. -/
def onHeapStep [DecidableEq ι] (HZ fuel : Nat) (h : Heap ι (TaskInfo w)) :
    Call ι w → Option (Heap ι (TaskInfo w) × Option (TaskInfo w))
  | .add pid kmalloc jiffies => (taskInfoAddForCurrent pid kmalloc jiffies h).map fun h => (h, none)
  | .findPid pid => do
    match ← taskInfoFindPid pid fuel h with
    | none => some (h, none)
    | some p => (h.payload p).map fun tsk => (h, some tsk)
  | .removeExpired pid jiffies => (taskInfoRemoveExpired HZ pid jiffies fuel h).map fun h => (h, none)

/-- The calls on the heap; a step that is not possible is a fault. -/
def onHeap (ι : Type) [DecidableEq ι] (w HZ fuel : Nat) :
    Machine (Heap ι (TaskInfo w)) (Call ι w) (Option (TaskInfo w)) :=
  ⟨noTasks ι w, onHeapStep HZ fuel⟩

/-- The same calls on the list of entries. -/
def onListStep (HZ : Nat) (head : List (TaskInfo w)) : Call ι w → List (TaskInfo w) × Option (TaskInfo w)
  | .add pid kmalloc jiffies =>
    (ListFull.taskInfoAddForCurrent pid (kmalloc.map Block.cnt) jiffies head, none)
  | .findPid pid => (head, head.find? fun tsk => tsk.pid = pid)
  | .removeExpired pid jiffies => (ListFull.taskInfoRemoveExpired HZ pid jiffies head, none)

def onList (ι : Type) (w HZ : Nat) : Machine (List (TaskInfo w)) (Call ι w) (Option (TaskInfo w)) :=
  ⟨[], fun head e => some (onListStep HZ head e)⟩

/-! ### The functions -/

section Functions

variable [DecidableEq ι] {h : Heap ι (TaskInfo w)} {nodes : List (ι × TaskInfo w)} {fuel : Nat}

theorem removeExpiredBody_sweeps (HZ : Nat) (pid : Int) (jiffies : Nat → BitVec w) :
    Sweeps (fun i tsk => tsk.expired HZ pid (jiffies i)) (fun i _ => i + 1)
      (removeExpiredBody (ι := ι) HZ pid jiffies) := by
  intro p h i tsk hp
  unfold removeExpiredBody
  rw [hp]
  cases h.discard p with
  | none => rfl
  | some h' => rfl

theorem printBody_sweeps :
    Sweeps (fun _ _ => false) (fun log t => log ++ printTaskInfo t) (printBody (ι := ι) (w := w)) := by
  intro p h log t hp
  unfold printBody
  rw [hp]
  rfl

omit [DecidableEq ι] in
theorem map_sweep (HZ : Nat) (pid : Int) (jiffies : Nat → BitVec w) (i : Nat) (nodes : List (ι × TaskInfo w)) :
    (sweep (fun i (tsk : TaskInfo w) => tsk.expired HZ pid (jiffies i)) (fun i _ => i + 1) i nodes).map Prod.snd =
      removeExpiredFrom HZ pid jiffies i (nodes.map Prod.snd) := by
  induction nodes generalizing i with
  | nil => rfl
  | cons x nodes ih =>
    rw [sweep, List.map_cons, removeExpiredFrom, ← ih (i + 1)]
    split_ifs
    · rfl
    · rfl

theorem taskInfoRemoveExpired_stores (hs : Stores h nodes) (hfuel : nodes.length < fuel) (HZ : Nat) (pid : Int)
    (jiffies : Nat → BitVec w) :
    ∃ h' nodes', taskInfoRemoveExpired HZ pid jiffies fuel h = some h' ∧ Stores h' nodes' ∧
      nodes'.length ≤ nodes.length ∧
      nodes'.map Prod.snd = ListFull.taskInfoRemoveExpired HZ pid jiffies (nodes.map Prod.snd) := by
  obtain ⟨h', hloop, hs'⟩ := hs.sweep (removeExpiredBody_sweeps HZ pid jiffies) hfuel 0
  refine ⟨h', _, ?_, hs', sweep_length_le _ _ _ _, map_sweep HZ pid jiffies 0 nodes⟩
  unfold taskInfoRemoveExpired
  rw [hloop]
  rfl

theorem taskInfoAddForCurrent_stores (hs : Stores h nodes) (pid : Int) {kmalloc : Option (Block ι)}
    (jiffies : BitVec w) (hfresh : (Call.add pid kmalloc jiffies).Fresh h) :
    ∃ h' nodes', taskInfoAddForCurrent pid kmalloc jiffies h = some h' ∧ Stores h' nodes' ∧
      nodes'.length ≤ nodes.length + 1 ∧
      nodes'.map Prod.snd = ListFull.taskInfoAddForCurrent pid (kmalloc.map Block.cnt) jiffies
        (nodes.map Prod.snd) := by
  cases kmalloc with
  | none => exact ⟨h, nodes, rfl, hs, Nat.le_succ _, rfl⟩
  | some m =>
    obtain ⟨h₁, h₂, h₃, hmalloc, hinit, hadd, hs'⟩ := hs.add hfresh m.links ⟨pid, m.cnt + 1, jiffies⟩
    refine ⟨h₃, _, ?_, hs', Nat.le_refl _, rfl⟩
    unfold taskInfoAddForCurrent allocTaskInfo
    simp only [hmalloc, Option.map_some]
    show (h₁.initListHead (.node m.addr)).bind (fun h => h.listAdd m.addr) = some h₃
    rw [hinit, Option.bind_some, hadd]

theorem exitFullKernelList_stores (hs : Stores h nodes) (hfuel : nodes.length < fuel) :
    ∃ h', exitFullKernelList fuel h = some (h', (nodes.map Prod.snd).flatMap printTaskInfo ++ farewell) ∧
      Stores h' [] := by
  obtain ⟨h₁, hprint, -⟩ := hs.sweep printBody_sweeps hfuel []
  obtain ⟨h₂, hloop, hs₂⟩ := hs.purge hfuel
  refine ⟨h₂, ?_, hs₂⟩
  have hlog : nodes.foldl (fun log x => log ++ printTaskInfo x.2) [] =
      (nodes.map Prod.snd).flatMap printTaskInfo := by
    rw [List.flatMap_map, List.flatMap_eq_foldl]
  unfold exitFullKernelList printFullList taskInfoPurgeList
  rw [hprint, hloop, hlog]
  rfl

end Functions

/-! ### Runs -/

section Runs

variable [DecidableEq ι] {HZ fuel : Nat}

theorem onHeapStep_stores {h : Heap ι (TaskInfo w)} {nodes : List (ι × TaskInfo w)} (hs : Stores h nodes)
    (hfuel : nodes.length < fuel) (HZ : Nat) {e : Call ι w} (hfresh : e.Fresh h) :
    ∃ h' nodes' o, onHeapStep HZ fuel h e = some (h', o) ∧ Stores h' nodes' ∧
      nodes'.length ≤ nodes.length + 1 ∧ onListStep HZ (nodes.map Prod.snd) e = (nodes'.map Prod.snd, o) := by
  cases e with
  | add pid kmalloc jiffies =>
    obtain ⟨h', nodes', hadd, hs', hlen, hlist⟩ := taskInfoAddForCurrent_stores hs pid jiffies hfresh
    refine ⟨h', nodes', none, ?_, hs', hlen, ?_⟩
    · simp only [onHeapStep, hadd, Option.map_some]
    · simp only [onListStep, hlist]
  | findPid pid =>
    refine ⟨h, nodes, (nodes.map Prod.snd).find? fun tsk => tsk.pid = pid, ?_, hs, Nat.le_succ _, rfl⟩
    have hfind := hs.forEachSafeFind (fun tsk => tsk.pid = pid) hfuel
    rw [List.find?_map]
    simp only [onHeapStep, taskInfoFindPid, Function.comp_def, hfind]
    cases hx : nodes.find? (fun x => decide (x.2.pid = pid)) with
    | none => rfl
    | some x =>
      show (h.payload x.1).map (fun tsk => (h, some tsk)) = some (h, some x.2)
      rw [hs.payload x (List.mem_of_find?_eq_some hx)]
      rfl
  | removeExpired pid jiffies =>
    obtain ⟨h', nodes', hremove, hs', hlen, hlist⟩ := taskInfoRemoveExpired_stores hs hfuel HZ pid jiffies
    refine ⟨h', nodes', none, ?_, hs', hlen.trans (Nat.le_succ _), ?_⟩
    · simp only [onHeapStep, hremove, Option.map_some]
    · simp only [onListStep, hlist]

theorem run_stores {es : List (Call ι w)} (hfuel : es.length < fuel)
    (hfresh : (onHeap ι w HZ fuel).EveryStep (fun h e => e.Fresh h) es) :
    ∃ h nodes os, (onHeap ι w HZ fuel).run es = some (h, os) ∧
      (onList ι w HZ).run es = some (nodes.map Prod.snd, os) ∧ Stores h nodes ∧ nodes.length ≤ es.length := by
  induction es using List.reverseRecOn with
  | nil =>
    refine ⟨noTasks ι w, [], [], rfl, rfl, ⟨⟨List.nodup_nil, rfl, rfl⟩, by simp, ?_⟩, Nat.le_refl _⟩
    intro i _
    rfl
  | append_singleton es e ih =>
    obtain ⟨hes, hlast⟩ := Machine.everyStep_concat.mp hfresh
    rw [List.length_append, List.length_singleton] at hfuel
    obtain ⟨h, nodes, os, hrun, hlist, hs, hlen⟩ := ih (by omega) hes
    have hnodes : nodes.length < fuel := by omega
    obtain ⟨h', nodes', o, hstep, hs', hlen', hstep'⟩ := onHeapStep_stores hs hnodes HZ (hlast h os hrun)
    refine ⟨h', nodes', os ++ [o], ?_, ?_, hs', ?_⟩
    · exact Machine.run_concat_eq_some _ |>.mpr ⟨h, os, o, hrun, hstep, rfl⟩
    · exact Machine.run_concat_eq_some _ |>.mpr ⟨_, os, o, hlist, congrArg some hstep', rfl⟩
    · rw [List.length_append, List.length_singleton]
      omega

/-- Any calls between loading and unloading, with fresh memory for each allocation that succeeds: none of them
faults, each lookup returns the first entry of its pid in the list, `exit_full_kernel_list` prints this list from
its front, and after it no `taskInfo` is allocated any more. -/
theorem list_full_lifetime {es : List (Call ι w)} (hfuel : es.length < fuel)
    (hfresh : (onHeap ι w HZ fuel).EveryStep (fun h e => e.Fresh h) es) :
    ∃ h head os h', (onHeap ι w HZ fuel).run es = some (h, os) ∧ (onList ι w HZ).run es = some (head, os) ∧
      exitFullKernelList fuel h = some (h', head.flatMap printTaskInfo ++ farewell) ∧ ∀ i, h'.get i = none := by
  obtain ⟨h, nodes, os, hrun, hlist, hs, hlen⟩ := run_stores hfuel hfresh
  obtain ⟨h', hexit, hs'⟩ := exitFullKernelList_stores hs (by omega : nodes.length < fuel)
  exact ⟨h, _, os, h', hrun, hlist, hexit, hs'.get_eq_none⟩

/-- Two of the four allocations of `init_full_kernel_list` succeed, and the second of the two entries is old when the
walk comes to it. -/
def twoTasks : List (Call Nat 64) :=
  initFullKernelList (fun k => 40 - k)
    (fun k => if k = 0 then some ⟨3, ⟨.poison1, .poison2⟩, 6⟩ else if k = 2 then some ⟨5, ⟨.head, .head⟩, 0⟩ else none)
    (fun _ => 100) fun _ => 5000

/-- The other one is printed and freed when the module is unloaded. -/
theorem list_full_lifetime_twoTasks :
    ∃ h os h', (onHeap Nat 64 250 7).run twoTasks = some (h, os) ∧
      exitFullKernelList 7 h = some (h', ["[LOG] PID: 40\n", "[LOG] CNT: 7\n", "[LOG] timestamp: 64\n"] ++
        farewell) ∧ ∀ i, h'.get i = none := by
  have hfirst : ∀ t os, (onHeap Nat 64 250 7).run [] = some (t, os) → t.payload 3 = none := by
    intro t os hrun
    obtain ⟨rfl, -⟩ := Prod.mk.inj (Option.some.inj hrun)
    rfl
  have hthird : ∀ t os, (onHeap Nat 64 250 7).run (twoTasks.take 2) = some (t, os) → t.payload 5 = none := by
    intro t os hrun
    have hunused : ((onHeap Nat 64 250 7).run (twoTasks.take 2)).map (fun r => r.1.payload 5) = some none := by
      decide +kernel
    rw [hrun] at hunused
    exact Option.some.inj hunused
  have hfresh : (onHeap Nat 64 250 7).EveryStep (fun h e => e.Fresh h) twoTasks := by
    refine (@Machine.everyStep_concat _ _ _ _ _ (twoTasks.take 5) _).mpr ⟨?_, fun _ _ _ => trivial⟩
    refine (@Machine.everyStep_concat _ _ _ _ _ (twoTasks.take 4) _).mpr ⟨?_, fun _ _ _ => trivial⟩
    refine (@Machine.everyStep_concat _ _ _ _ _ (twoTasks.take 3) _).mpr ⟨?_, fun _ _ _ => trivial⟩
    refine (@Machine.everyStep_concat _ _ _ _ _ (twoTasks.take 2) _).mpr ⟨?_, hthird⟩
    refine (@Machine.everyStep_concat _ _ _ _ _ (twoTasks.take 1) _).mpr ⟨?_, fun _ _ _ => trivial⟩
    exact (@Machine.everyStep_concat _ _ _ _ _ [] _).mpr ⟨Machine.everyStep_nil, hfirst⟩
  obtain ⟨h, head, os, h', hrun, hlist, hexit, hnone⟩ := list_full_lifetime (by decide : twoTasks.length < 7) hfresh
  have hend : ((onList Nat 64 250).run twoTasks).map Prod.fst = some [⟨40, 7, 100⟩] := by decide +kernel
  rw [hlist] at hend
  obtain rfl : head = [⟨40, 7, 100⟩] := Option.some.inj hend
  exact ⟨h, os, h', hrun, hexit, hnone⟩

end Runs

end OnHeap

end DeviceDrivers.ListFull
