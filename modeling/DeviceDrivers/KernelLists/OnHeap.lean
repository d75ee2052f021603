import DeviceDrivers.Kernel
import DeviceDrivers.Lib.Sweep

/-!
# The list of `list.c` on its nodes

`KernelModules/kernel-Lists-mod/list.c` adds an entry for a process and some of its ancestors when it is loaded; any
of the allocations may fail. When it is unloaded it prints the entries that there are, the last one first, and frees
each of them once (`list_lifetime`).
-/

namespace DeviceDrivers.KernelLists

open ListHead

variable {ι : Type} {w : Nat}

/-- `struct taskInfo` without its `list_head`. -/
structure TaskInfo (w : Nat) where
  pid : Int
  timestamp : BitVec w
  deriving DecidableEq

/-- A call of `task_info_add_for_current`: `kmalloc` is `NULL`, or the address of the new memory and what the links
in it hold. -/
structure Add (ι : Type) (w : Nat) where
  pid : Int
  kmalloc : Option (ι × Links ι)
  jiffies : BitVec w

/-- `print_task_info` -/
def printTaskInfo (tsk : TaskInfo w) : List String :=
  ["tsk->id: " ++ toString tsk.pid ++ "\n", "tsk->timestamp: " ++ hex tsk.timestamp ++ "\n"]

/-- `task_info_print_list` -/
def taskInfoPrintList (fuel : Nat) (h : Heap ι (TaskInfo w)) : Option (List String) :=
  listForEach (fun log tsk => log ++ printTaskInfo tsk) fuel h []

section Code

variable [DecidableEq ι]

/-- `alloc_task_info` -/
def allocTaskInfo (a : Add ι w) (h : Heap ι (TaskInfo w)) : Option (Heap ι (TaskInfo w) × Option ι) :=
  match a.kmalloc with
  | none => some (h, none)
  | some m => (h.kmalloc m.1 m.2 ⟨a.pid, a.jiffies⟩).map fun h => (h, some m.1)

/-- `task_info_add_for_current` -/
def taskInfoAddForCurrent (h : Heap ι (TaskInfo w)) (a : Add ι w) : Option (Heap ι (TaskInfo w)) := do
  match ← allocTaskInfo a h with
  | (h, none) => some h
  | (h, some tsk) =>
    let h ← h.initListHead (.node tsk)
    h.listAdd tsk

/-- `task_info_purge_list` -/
def taskInfoPurgeList (fuel : Nat) (h : Heap ι (TaskInfo w)) : Option (Heap ι (TaskInfo w)) :=
  (listForEachSafe discardNode fuel h ()).map Prod.fst

/-- What `init_kernel_list` prints. -/
def welcome : List String := ["[LOG] Succesffuly added the task info into the linked list\n"]

/-- `init_kernel_list` from `INIT_LIST_HEAD(&head)` on, with its calls of `task_info_add_for_current`. It returns `0`
and prints the same whether or not they find memory. -/
def initKernelList (adds : List (Add ι w)) : Option (Heap ι (TaskInfo w) × List String × Int) := do
  let h ← adds.foldlM taskInfoAddForCurrent ⟨⟨.head, .head⟩, fun _ => none⟩
  some (h, welcome, 0)

/-- What `exit_kernel_list` prints in the end. -/
def farewell : List String :=
  ["[LOG] Successfully purged the linked list", "[LOG] unloading the kernel list module\n"]

/-- `exit_kernel_list` -/
def exitKernelList (fuel : Nat) (h : Heap ι (TaskInfo w)) : Option (Heap ι (TaskInfo w) × List String) := do
  let log ← taskInfoPrintList fuel h
  let h ← taskInfoPurgeList fuel h
  some (h, log ++ farewell)

end Code

/-- The calls that `init_kernel_list` makes; `pid k` is the `k`-th ancestor of `current`. -/
def ancestors (pid : Nat → Int) (kmalloc : Nat → Option (ι × Links ι)) (jiffies : Nat → BitVec w) :
    List (Add ι w) :=
  (List.range 4).map fun k => ⟨pid k, kmalloc k, jiffies k⟩

/-- The node that a call adds. -/
def Add.node? (a : Add ι w) : Option (ι × TaskInfo w) := a.kmalloc.map fun m => (m.1, ⟨a.pid, a.jiffies⟩)

section Lifetime

variable [DecidableEq ι] {h : Heap ι (TaskInfo w)} {nodes : List (ι × TaskInfo w)} {adds : List (Add ι w)}

theorem taskInfoAddForCurrent_stores (hs : Stores h nodes) {a : Add ι w}
    (hfresh : ∀ x ∈ a.node?, x.1 ∉ nodes.map Prod.fst) :
    ∃ h', taskInfoAddForCurrent h a = some h' ∧ Stores h' (a.node?.toList ++ nodes) := by
  obtain ⟨pid, kmalloc, jiffies⟩ := a
  cases kmalloc with
  | none => exact ⟨h, rfl, hs⟩
  | some m =>
    have hdead := hs.only m.1 (hfresh _ rfl)
    obtain ⟨h₁, h₂, h₃, hmalloc, hinit, hadd, hs'⟩ := hs.add hdead m.2 ⟨pid, jiffies⟩
    refine ⟨h₃, ?_, hs'⟩
    unfold taskInfoAddForCurrent allocTaskInfo
    simp only [hmalloc, Option.map_some]
    show (h₁.initListHead (.node m.1)).bind (fun h => h.listAdd m.1) = some h₃
    rw [hinit, Option.bind_some, hadd]

theorem foldlM_stores (hs : Stores h nodes) (hdistinct : ((adds.filterMap Add.node?).map Prod.fst).Nodup)
    (hfresh : ∀ x ∈ adds.filterMap Add.node?, x.1 ∉ nodes.map Prod.fst) :
    ∃ h', adds.foldlM taskInfoAddForCurrent h = some h' ∧
      Stores h' ((adds.filterMap Add.node?).reverse ++ nodes) := by
  induction adds generalizing h nodes with
  | nil => exact ⟨h, rfl, hs⟩
  | cons a adds ih =>
    have hcons : (a :: adds).filterMap Add.node? = a.node?.toList ++ adds.filterMap Add.node? := by
      cases ha : a.node? with
      | none => rw [List.filterMap_cons_none ha]; rfl
      | some x => rw [List.filterMap_cons_some ha]; rfl
    rw [hcons] at hdistinct hfresh ⊢
    rw [List.map_append] at hdistinct
    obtain ⟨-, htail, hapart⟩ := List.nodup_append.mp hdistinct
    obtain ⟨h₁, hadd, hs₁⟩ := taskInfoAddForCurrent_stores hs (a := a) fun x hx =>
      hfresh x (List.mem_append_left _ (Option.mem_toList.mpr hx))
    obtain ⟨h₂, hrest, hs₂⟩ := ih hs₁ htail (by
      intro x hx hmem
      rw [List.map_append, List.mem_append] at hmem
      rcases hmem with hmem | hmem
      · exact hapart _ hmem _ (List.mem_map_of_mem hx) rfl
      · exact hfresh x (List.mem_append_right _ hx) hmem)
    refine ⟨h₂, ?_, ?_⟩
    · rw [List.foldlM_cons, hadd]
      exact hrest
    · have hreverse : a.node?.toList.reverse = a.node?.toList := by
        cases a.node? with
        | none => rfl
        | some x => rfl
      rw [List.reverse_append, hreverse, List.append_assoc]
      exact hs₂

theorem exitKernelList_stores (hs : Stores h nodes) {fuel : Nat} (hfuel : nodes.length < fuel) :
    ∃ h', exitKernelList fuel h = some (h', (nodes.map Prod.snd).flatMap printTaskInfo ++ farewell) ∧
      Stores h' [] := by
  have hprint := hs.forEach (fun log tsk => log ++ printTaskInfo tsk) hfuel []
  obtain ⟨h', hloop, hs'⟩ := hs.purge hfuel
  refine ⟨h', ?_, hs'⟩
  unfold exitKernelList taskInfoPrintList taskInfoPurgeList
  rw [hprint, hloop, List.flatMap_map, List.flatMap_eq_foldl]
  rfl

/-- Whichever allocations succeed, and at whatever addresses: loading and unloading do not fault, the entries that
were allocated are printed, the last one first, and none of them is left. -/
theorem list_lifetime (hdistinct : ((adds.filterMap Add.node?).map Prod.fst).Nodup) {fuel : Nat}
    (hfuel : adds.length < fuel) :
    ∃ h h', initKernelList adds = some (h, welcome, 0) ∧
      exitKernelList fuel h = some (h', ((adds.filterMap Add.node?).map Prod.snd).reverse.flatMap printTaskInfo ++
        farewell) ∧
      ∀ i, h'.get i = none := by
  have hnone : Stores (⟨⟨.head, .head⟩, fun _ => none⟩ : Heap ι (TaskInfo w)) [] :=
    ⟨⟨List.nodup_nil, rfl, rfl⟩, by simp, fun _ _ => rfl⟩
  obtain ⟨h, hadds, hs⟩ := foldlM_stores hnone hdistinct (by simp)
  rw [List.append_nil] at hs
  have hlen : (adds.filterMap Add.node?).reverse.length < fuel := by
    rw [List.length_reverse]
    exact (List.length_filterMap_le _ _).trans_lt hfuel
  obtain ⟨h', hexit, hs'⟩ := exitKernelList_stores hs hlen
  refine ⟨h, h', ?_, ?_, hs'.get_eq_none⟩
  · unfold initKernelList
    rw [hadds]
    rfl
  · rw [hexit, List.map_reverse]

end Lifetime

/-- The second and the third of the four allocations fail. -/
def twoOfFour : List (Add Nat 64) :=
  ancestors (fun k => 40 - k) (fun k => if k = 0 ∨ k = 3 then some (k, ⟨.poison1, .poison2⟩) else none)
    fun k => BitVec.ofNat 64 (255 + k)

theorem list_lifetime_twoOfFour :
    ∃ h h', initKernelList twoOfFour = some (h, welcome, 0) ∧
      exitKernelList 5 h = some (h', ["tsk->id: 37\n", "tsk->timestamp: 102\n", "tsk->id: 40\n",
        "tsk->timestamp: ff\n"] ++ farewell) ∧
      ∀ i, h'.get i = none := by
  obtain ⟨h, h', hinit, hexit, hnone⟩ := list_lifetime (by decide : ((twoOfFour.filterMap Add.node?).map Prod.fst).Nodup)
    (by decide : twoOfFour.length < 5)
  exact ⟨h, h', hinit, hexit, hnone⟩

end DeviceDrivers.KernelLists
