import Mathlib.Data.List.Nodup
import DeviceDrivers.ListFull.Garbage

/-!
# Lookups in the list of `list-full`

`task_info_find_pid` returns the first entry for a pid. A pid may have several, and two of them may be equal
in all their fields, so here an entry is a node that knows which call added it. The nodes in the list are
those that were added and never freed, the latest first, whatever the walks freed in between; so the first
entry for a pid is its newest one (`find_pid_newest`).
-/

namespace DeviceDrivers.ListFull

variable {w : Nat}

/-- A `taskInfo` in memory: the number of the call that added it, and what it holds. -/
structure Node (w : Nat) where
  id : Nat
  tsk : TaskInfo w
  deriving DecidableEq

/-- The walk of `task_info_remove_expired` from the `i`-th visit on: the nodes it keeps and those it
frees. -/
def walkFrom (HZ : Nat) (pid : Int) (jiffies : Nat → BitVec w) :
    Nat → List (Node w) → List (Node w) × List (Node w)
  | _, [] => ([], [])
  | i, n :: rest =>
    let r := walkFrom HZ pid jiffies (i + 1) rest
    if n.tsk.expired HZ pid (jiffies i) then (r.1, n :: r.2) else (n :: r.1, r.2)

/-- `task_info_find_pid` -/
def taskInfoFindPid (pid : Int) : List (Node w) → Option (Node w)
  | [] => none
  | n :: rest => if n.tsk.pid = pid then some n else taskInfoFindPid pid rest

/-- The list, and how many calls there were. -/
structure Nodes (w : Nat) where
  head : List (Node w)
  calls : Nat

/-- The node that a call adds. -/
def Call.node (id : Nat) : Call w → Option (Node w)
  | .add pid kmalloc jiffies => (allocTaskInfo pid kmalloc jiffies).map fun tsk => ⟨id, tsk⟩
  | .removeExpired _ _ => none

/-- The output is the nodes that the call frees. -/
def nodesStep (HZ : Nat) (s : Nodes w) : Call w → Nodes w × List (Node w)
  | .add pid kmalloc jiffies =>
    (⟨((Call.add pid kmalloc jiffies).node s.calls).toList ++ s.head, s.calls + 1⟩, [])
  | .removeExpired pid jiffies =>
    (⟨(walkFrom HZ pid jiffies 0 s.head).1, s.calls + 1⟩, (walkFrom HZ pid jiffies 0 s.head).2)

def nodes (w HZ : Nat) : Machine (Nodes w) (Call w) (List (Node w)) :=
  ⟨⟨[], 0⟩, fun s e => some (nodesStep HZ s e)⟩

/-- The nodes added by the calls from the `id`-th on, in their order. -/
def addedFrom : Nat → List (Call w) → List (Node w)
  | _, [] => []
  | id, e :: es => (e.node id).toList ++ addedFrom (id + 1) es

/-- The nodes that a run has added and not freed, in the order in which they were added. -/
def survivors (es : List (Call w)) (freed : List (Node w)) : List (Node w) :=
  (addedFrom 0 es).filter (· ∉ freed)

/-- What an allocation that succeeds reads from `jiffies`. -/
def Call.stamp : Call w → Option (BitVec w)
  | .add _ (some _) jiffies => some jiffies
  | _ => none

/-! ### The nodes as entries -/

theorem map_walkFrom (HZ : Nat) (pid : Int) (jiffies : Nat → BitVec w) (i : Nat) (head : List (Node w)) :
    (walkFrom HZ pid jiffies i head).1.map Node.tsk = removeExpiredFrom HZ pid jiffies i (head.map Node.tsk) := by
  induction head generalizing i with
  | nil => rfl
  | cons n rest ih =>
    rw [walkFrom, List.map_cons, removeExpiredFrom, ← ih (i + 1)]
    split_ifs
    · rfl
    · rfl

/-- The list of nodes is the list of entries, with names. -/
theorem nodes_refines_listFull {HZ : Nat} {es : List (Call w)} {s : Nodes w} {os : List (List (Node w))}
    (hrun : (nodes w HZ).run es = some (s, os)) :
    (listFull w HZ).run es = some (s.head.map Node.tsk, os.map fun _ => ()) := by
  have hstep : ∀ {s : Nodes w} {head : List (TaskInfo w)} {e : Call w} {s' : Nodes w} {o : List (Node w)},
      s.head.map Node.tsk = head → True → (nodes w HZ).step s e = some (s', o) →
        ∃ head', (listFull w HZ).step head e = some (head', ()) ∧ s'.head.map Node.tsk = head' := by
    rintro s head e s' o rfl - hstep
    obtain ⟨rfl, rfl⟩ := Prod.mk.inj (Option.some.inj hstep)
    refine ⟨_, rfl, ?_⟩
    cases e with
    | add pid kmalloc jiffies =>
      cases kmalloc with
      | none => rfl
      | some garbage => rfl
    | removeExpired pid jiffies => exact map_walkFrom HZ pid jiffies 0 s.head
  obtain ⟨head, hfull, rfl⟩ := Machine.runFrom_sim (f := fun _ => ()) hstep rfl (fun _ _ => trivial) hrun
  exact hfull

/-! ### What a walk keeps -/

theorem walkFrom_sublist (HZ : Nat) (pid : Int) (jiffies : Nat → BitVec w) (i : Nat) (head : List (Node w)) :
    (walkFrom HZ pid jiffies i head).2.Sublist head := by
  induction head generalizing i with
  | nil => exact List.Sublist.slnil
  | cons n rest ih =>
    rw [walkFrom]
    split_ifs
    · exact (ih (i + 1)).cons_cons n
    · exact (ih (i + 1)).cons n

theorem walkFrom_eq_filter (HZ : Nat) (pid : Int) (jiffies : Nat → BitVec w) (i : Nat)
    {head : List (Node w)} (hnodup : head.Nodup) :
    (walkFrom HZ pid jiffies i head).1 = head.filter (· ∉ (walkFrom HZ pid jiffies i head).2) := by
  induction head generalizing i with
  | nil => rfl
  | cons n rest ih =>
    obtain ⟨hn, hrest⟩ := List.nodup_cons.mp hnodup
    have hfreed : n ∉ (walkFrom HZ pid jiffies (i + 1) rest).2 := by
      intro hmem
      exact hn ((walkFrom_sublist HZ pid jiffies (i + 1) rest).subset hmem)
    rw [walkFrom]
    split_ifs
    · -- the node is freed, and no other one is the same
      rw [List.filter_cons_of_neg (by simp), ih (i + 1) hrest]
      apply List.filter_congr
      intro m hm
      have hne : m ≠ n := by
        rintro rfl
        exact hn hm
      simp [hne]
    · rw [List.filter_cons_of_pos (by simpa using hfreed), ← ih (i + 1) hrest]

/-! ### Runs -/

theorem addedFrom_concat (id : Nat) (es : List (Call w)) (e : Call w) :
    addedFrom id (es ++ [e]) = addedFrom id es ++ (e.node (id + es.length)).toList := by
  induction es generalizing id with
  | nil => simp [addedFrom]
  | cons f es ih =>
    have harith : id + 1 + es.length = id + (es.length + 1) := by omega
    rw [List.cons_append, addedFrom, addedFrom, ih, List.append_assoc, List.length_cons, harith]

theorem Call.id_of_node {id : Nat} {e : Call w} {n : Node w} (h : n ∈ (e.node id).toList) : n.id = id := by
  cases e with
  | removeExpired pid jiffies => simp [Call.node] at h
  | add pid kmalloc jiffies =>
    cases kmalloc with
    | none => simp [Call.node, allocTaskInfo] at h
    | some garbage =>
      obtain rfl : n = ⟨id, ⟨pid, garbage + 1, jiffies⟩⟩ := by
        simpa [Call.node, allocTaskInfo] using h
      rfl

theorem id_lt_of_mem_addedFrom {es : List (Call w)} {n : Node w} (h : n ∈ addedFrom 0 es) :
    n.id < es.length := by
  induction es using List.reverseRecOn with
  | nil => simp [addedFrom] at h
  | append_singleton es e ih =>
    rw [addedFrom_concat, List.mem_append] at h
    rw [List.length_append, List.length_singleton]
    rcases h with h | h
    · have := ih h
      omega
    · have := Call.id_of_node h
      omega

theorem nodup_addedFrom (es : List (Call w)) : (addedFrom 0 es).Nodup := by
  induction es using List.reverseRecOn with
  | nil => exact List.nodup_nil
  | append_singleton es e ih =>
    rw [addedFrom_concat, List.nodup_append]
    refine ⟨ih, ?_, ?_⟩
    · cases e.node (0 + es.length) with
      | none => exact List.nodup_nil
      | some n => exact List.nodup_singleton n
    · rintro m hm n hn rfl
      have hlt := id_lt_of_mem_addedFrom hm
      have heq := Call.id_of_node hn
      omega

theorem map_timestamp_addedFrom (id : Nat) (es : List (Call w)) :
    (addedFrom id es).map (·.tsk.timestamp) = es.filterMap Call.stamp := by
  induction es generalizing id with
  | nil => rfl
  | cons e es ih =>
    rw [addedFrom, List.map_append, ih]
    cases e with
    | removeExpired pid jiffies =>
      rw [List.filterMap_cons_none rfl]
      rfl
    | add pid kmalloc jiffies =>
      cases kmalloc with
      | none =>
        rw [List.filterMap_cons_none rfl]
        rfl
      | some garbage =>
        have hstamp : (Call.add pid (some garbage) jiffies).stamp = some jiffies := rfl
        rw [List.filterMap_cons_some hstamp]
        rfl

/-- The list after a run, and what the run has freed. -/
structure Lists (es : List (Call w)) (s : Nodes w) (freed : List (Node w)) : Prop where
  head : s.head = (survivors es freed).reverse
  calls : s.calls = es.length
  freed : ∀ n ∈ freed, n ∈ addedFrom 0 es

theorem Lists.nodup {es : List (Call w)} {s : Nodes w} {freed : List (Node w)} (h : Lists es s freed) :
    s.head.Nodup := by
  rw [h.head, List.nodup_reverse]
  exact (nodup_addedFrom es).filter _

theorem Lists.add {es : List (Call w)} {s : Nodes w} {freed : List (Node w)} (h : Lists es s freed)
    (pid : Int) (kmalloc : Option (BitVec 32)) (jiffies : BitVec w) :
    Lists (es ++ [.add pid kmalloc jiffies])
      ⟨((Call.add pid kmalloc jiffies).node s.calls).toList ++ s.head, s.calls + 1⟩ freed := by
  have hnew : ∀ n ∈ ((Call.add pid kmalloc jiffies).node es.length).toList, n ∉ freed := by
    intro n hn hfreed
    have hlt := id_lt_of_mem_addedFrom (h.freed n hfreed)
    have heq := Call.id_of_node hn
    omega
  refine ⟨?_, ?_, ?_⟩
  · have hkeep : ((Call.add pid kmalloc jiffies).node es.length).toList.filter (· ∉ freed) =
        ((Call.add pid kmalloc jiffies).node es.length).toList := by
      apply List.filter_eq_self.mpr
      intro n hn
      simpa using hnew n hn
    have hone : ((Call.add pid kmalloc jiffies).node es.length).toList.reverse =
        ((Call.add pid kmalloc jiffies).node es.length).toList := by
      cases (Call.add pid kmalloc jiffies).node es.length with
      | none => rfl
      | some n => rfl
    unfold survivors
    dsimp only
    rw [addedFrom_concat, Nat.zero_add, List.filter_append, hkeep, List.reverse_append, hone, h.calls, h.head]
    rfl
  · rw [List.length_append, List.length_singleton, h.calls]
  · intro n hn
    rw [addedFrom_concat, List.mem_append]
    left
    exact h.freed n hn

theorem Lists.removeExpired {es : List (Call w)} {s : Nodes w} {freed : List (Node w)} (h : Lists es s freed)
    (HZ : Nat) (pid : Int) (jiffies : Nat → BitVec w) :
    Lists (es ++ [.removeExpired pid jiffies]) ⟨(walkFrom HZ pid jiffies 0 s.head).1, s.calls + 1⟩
      (freed ++ (walkFrom HZ pid jiffies 0 s.head).2) := by
  have hadded : addedFrom 0 (es ++ [.removeExpired pid jiffies]) = addedFrom 0 es := by
    rw [addedFrom_concat]
    exact List.append_nil _
  refine ⟨?_, ?_, ?_⟩
  · unfold survivors
    dsimp only
    rw [walkFrom_eq_filter HZ pid jiffies 0 h.nodup, hadded]
    generalize (walkFrom HZ pid jiffies 0 s.head).2 = freed'
    rw [h.head, survivors, ← List.filter_reverse, ← List.filter_reverse, List.filter_filter]
    apply List.filter_congr
    intro n _
    simp [Bool.and_comm]
  · rw [List.length_append, List.length_singleton, h.calls]
  · intro n hn
    rw [hadded]
    rcases List.mem_append.mp hn with hn | hn
    · exact h.freed n hn
    · have hmem := (walkFrom_sublist HZ pid jiffies 0 s.head).subset hn
      rw [h.head, List.mem_reverse] at hmem
      exact (List.mem_filter.mp hmem).1

theorem lists_run {HZ : Nat} {es : List (Call w)} {s : Nodes w} {os : List (List (Node w))}
    (hrun : (nodes w HZ).run es = some (s, os)) : Lists es s os.flatten := by
  induction es using List.reverseRecOn generalizing s os with
  | nil =>
    obtain ⟨rfl, rfl⟩ := Prod.mk.inj (Option.some.inj hrun)
    exact ⟨rfl, rfl, by simp⟩
  | append_singleton es e ih =>
    obtain ⟨t, os', o, hes, hstep, rfl⟩ := (nodes w HZ).run_concat_eq_some.mp hrun
    have ht := ih hes
    obtain ⟨rfl, rfl⟩ := Prod.mk.inj (Option.some.inj hstep)
    rw [List.flatten_append, List.flatten_singleton]
    cases e with
    | add pid kmalloc jiffies =>
      show Lists _ _ (os'.flatten ++ [])
      rw [List.append_nil]
      exact ht.add pid kmalloc jiffies
    | removeExpired pid jiffies => exact ht.removeExpired HZ pid jiffies

theorem taskInfoFindPid_eq (pid : Int) (head : List (Node w)) :
    taskInfoFindPid pid head = (head.filter (·.tsk.pid = pid)).head? := by
  induction head with
  | nil => rfl
  | cons n rest ih =>
    rw [taskInfoFindPid]
    split_ifs with h
    · rw [List.filter_cons_of_pos (by simpa using h)]
      rfl
    · rw [List.filter_cons_of_neg (by simpa using h), ih]

/-- After every sequence of calls, with a clock that does not go back, the list is the surviving entries in
the reverse of the order in which they were added, its timestamps do not increase, and a lookup returns the
last added surviving entry for its pid, and `NULL` exactly if there is none. -/
theorem find_pid_newest (HZ : Nat) {es : List (Call w)}
    (hclock : (es.filterMap Call.stamp).Pairwise (· ≤ ·)) :
    ∃ s os, (nodes w HZ).run es = some (s, os) ∧
      s.head = (survivors es os.flatten).reverse ∧
      (s.head.map (·.tsk.timestamp)).Pairwise (fun t u => u ≤ t) ∧
      ∀ pid,
        taskInfoFindPid pid s.head = ((survivors es os.flatten).filter (·.tsk.pid = pid)).getLast? ∧
        (taskInfoFindPid pid s.head = none ↔ ∀ n ∈ survivors es os.flatten, n.tsk.pid ≠ pid) := by
  obtain ⟨s, os, hrun⟩ := (nodes w HZ).exists_run (fun _ _ => rfl) es
  have hlists := lists_run hrun
  refine ⟨s, os, hrun, hlists.head, ?_, ?_⟩
  · rw [hlists.head, List.map_reverse, List.pairwise_reverse]
    refine List.Pairwise.sublist ?_ hclock
    rw [← map_timestamp_addedFrom 0 es]
    exact List.filter_sublist.map _
  · intro pid
    have hfind : taskInfoFindPid pid s.head =
        ((survivors es os.flatten).filter (·.tsk.pid = pid)).getLast? := by
      rw [taskInfoFindPid_eq, hlists.head, List.filter_reverse, List.head?_reverse]
    refine ⟨hfind, ?_⟩
    rw [hfind, List.getLast?_eq_none_iff, List.filter_eq_nil_iff]
    simp

/-- Two entries for one pid, of which the walk frees the older: the lookup returns the other one. -/
theorem find_pid_newest_after_walk :
    ∃ s os, (nodes 64 250).run [.add 7 (some 0) 100, .add 7 (some 0) 1000,
        .removeExpired 7 fun _ => 1100] = some (s, os) ∧
      taskInfoFindPid 7 s.head = some ⟨1, ⟨7, 1, 1000⟩⟩ := by
  obtain ⟨s, os, hrun, -, -, hfind⟩ := @find_pid_newest 64 250
    [.add 7 (some 0) 100, .add 7 (some 0) 1000, .removeExpired 7 fun _ => 1100] (by decide)
  refine ⟨s, os, hrun, ?_⟩
  obtain ⟨rfl, rfl⟩ := Prod.mk.inj (Option.some.inj hrun)
  rw [(hfind 7).1]
  decide

end DeviceDrivers.ListFull
