import DeviceDrivers.Lib.ListHead
import DeviceDrivers.ListSync.Exit

/-!
# The task list as a ring of nodes

The functions of `list-sync.c` once more, on the pointers they work with: `task_info_remove_expired` and
`task_info_purge_list` delete the node their loop is at, `task_info_add_to_list` walks, updates in place
or links a new node. None of them touches a freed node, and each leaves a ring with the entries that the
function on lists computes (`ring_operations`).
-/

namespace DeviceDrivers.ListSync

open ListHead

namespace OnHeap

variable {ι : Type} {w : Nat}

/-- The nodes that a loop visits and those it frees, in order. -/
structure Trace (ι : Type) where
  visited : List ι
  freed : List ι

section Code

variable [DecidableEq ι]

/-- `list_del` and `kfree` -/
def evictNode (p : ι) (h : Heap ι (TaskInfo w)) (t : Trace ι) : Option (Heap ι (TaskInfo w) × Trace ι) := do
  let h ← h.listDel p
  let h ← h.kfree p
  some (h, ⟨t.visited ++ [p], t.freed ++ [p]⟩)

/-- The loop body of `task_info_remove_expired`; the `i`-th round reads `jiffies i`. -/
def removeExpiredBody (HZ : Nat) (jiffies : Nat → BitVec w) (p : ι) (h : Heap ι (TaskInfo w))
    (t : Trace ι) : Option (Heap ι (TaskInfo w) × Trace ι) := do
  let ti ← h.payload p
  if ti.expired HZ (jiffies t.visited.length) then evictNode p h t
  else some (h, ⟨t.visited ++ [p], t.freed⟩)

/-- `task_info_remove_expired` -/
def taskInfoRemoveExpired (HZ : Nat) (jiffies : Nat → BitVec w) (fuel : Nat) (h : Heap ι (TaskInfo w)) :
    Option (Heap ι (TaskInfo w) × Trace ι) :=
  listForEachSafe (removeExpiredBody HZ jiffies) fuel h ⟨[], []⟩

/-- `task_info_purge_list` -/
def taskInfoPurgeList (fuel : Nat) (h : Heap ι (TaskInfo w)) : Option (Heap ι (TaskInfo w) × Trace ι) :=
  listForEachSafe evictNode fuel h ⟨[], []⟩

/-- `task_info_find_pid` -/
def taskInfoFindPid (pid : Int) (fuel : Nat) (h : Heap ι (TaskInfo w)) : Option (Option ι) :=
  listForEachFind (fun ti => ti.pid = pid) fuel h

/-- `task_info_add_to_list`, where `kmalloc` returns the node `new` with `garbage` in its links. -/
def taskInfoAddToList (pid : Int) (jiffies : BitVec w) (new : ι) (garbage : Links ι) (fuel : Nat)
    (h : Heap ι (TaskInfo w)) : Option (Heap ι (TaskInfo w)) := do
  match ← taskInfoFindPid pid fuel h with
  | some p => h.setPayload p (TaskInfo.refresh jiffies)
  | none =>
    let h ← h.kmalloc new garbage ⟨pid, jiffies, 0⟩
    h.listAdd new

end Code

/-- The ring of these nodes, each with its entry. -/
structure Holds (h : Heap ι (TaskInfo w)) (nodes : List (ι × TaskInfo w)) : Prop where
  ring : Ring h (nodes.map Prod.fst)
  payload : ∀ x ∈ nodes, h.payload x.1 = some x.2

/-- The nodes that a loop evicts, if it decides by the number of the round and the entry. -/
def evicted (evict : Nat → TaskInfo w → Bool) (nodes : List (ι × TaskInfo w)) : List (ι × TaskInfo w) :=
  (nodes.zipIdx.filter fun x => evict x.2 x.1.2).map Prod.fst

/-- The other nodes. -/
def surviving (evict : Nat → TaskInfo w → Bool) (nodes : List (ι × TaskInfo w)) : List (ι × TaskInfo w) :=
  (nodes.zipIdx.filter fun x => !evict x.2 x.1.2).map Prod.fst

/-! ### The nodes and the list of entries -/

section Evict

variable (evict : Nat → TaskInfo w → Bool) (nodes : List (ι × TaskInfo w)) (x : ι × TaskInfo w)

theorem surviving_concat : surviving evict (nodes ++ [x]) =
    surviving evict nodes ++ if evict nodes.length x.2 then [] else [x] := by
  unfold surviving
  rw [List.zipIdx_append, List.filter_append, List.map_append]
  split_ifs with hexp
  · simp [hexp]
  · simp [hexp]

theorem evicted_concat : evicted evict (nodes ++ [x]) =
    evicted evict nodes ++ if evict nodes.length x.2 then [x] else [] := by
  unfold evicted
  rw [List.zipIdx_append, List.filter_append, List.map_append]
  split_ifs with hexp
  · simp [hexp]
  · simp [hexp]

theorem evicted_sublist : (evicted evict nodes).Sublist nodes := by
  conv_rhs => rw [← List.zipIdx_map_fst 0 nodes]
  exact List.filter_sublist.map _

theorem surviving_sublist : (surviving evict nodes).Sublist nodes := by
  conv_rhs => rw [← List.zipIdx_map_fst 0 nodes]
  exact List.filter_sublist.map _

theorem surviving_not_evicted {nodes : List (ι × TaskInfo w)} (hnodup : (nodes.map Prod.fst).Nodup)
    {x : ι × TaskInfo w} (hx : x ∈ surviving evict nodes) : x.1 ∉ (evicted evict nodes).map Prod.fst := by
  have hperm : (evicted evict nodes ++ surviving evict nodes).Perm nodes := by
    conv_rhs => rw [← List.zipIdx_map_fst 0 nodes]
    unfold evicted surviving
    rw [← List.map_append]
    exact (List.filter_append_perm _ _).map _
  have hsplit := (hperm.map Prod.fst).nodup_iff.mpr hnodup
  rw [List.map_append] at hsplit
  intro hmem
  exact (List.nodup_append.mp hsplit).2.2 x.1 hmem x.1 (List.mem_map.mpr ⟨x, hx, rfl⟩) rfl

end Evict

theorem taskInfoRemoveExpired_eq (HZ : Nat) (jiffies : Nat → BitVec w) (nodes : List (ι × TaskInfo w)) :
    ListSync.taskInfoRemoveExpired HZ jiffies (nodes.map Prod.snd) =
      ((surviving (fun k ti => ti.expired HZ (jiffies k)) nodes).map Prod.snd,
        (evicted (fun k ti => ti.expired HZ (jiffies k)) nodes).map Prod.snd) := by
  unfold surviving evicted
  rw [taskInfoRemoveExpired_map, List.map_map, List.map_map]
  rfl

/-! ### Loops that evict -/

section Loop

variable [DecidableEq ι] {h h₀ : Heap ι (TaskInfo w)} {nodes : List (ι × TaskInfo w)}
  {evict : Nat → TaskInfo w → Bool}

/-- The body evicts its node or passes it, as `evict` says. -/
def Evicts (evict : Nat → TaskInfo w → Bool)
    (body : ι → Heap ι (TaskInfo w) → Trace ι → Option (Heap ι (TaskInfo w) × Trace ι)) : Prop :=
  ∀ p h t ti, h.payload p = some ti →
    body p h t = if evict t.visited.length ti then evictNode p h t
      else some (h, ⟨t.visited ++ [p], t.freed⟩)

theorem removeExpiredBody_evicts (HZ : Nat) (jiffies : Nat → BitVec w) :
    Evicts (fun k ti => ti.expired HZ (jiffies k)) (removeExpiredBody (ι := ι) HZ jiffies) := by
  intro p h t ti hp
  unfold removeExpiredBody
  rw [hp]
  rfl

theorem evictNode_evicts : Evicts (fun _ _ => true) (evictNode (ι := ι) (w := w)) := by
  intro p h t ti _
  exact (if_pos rfl).symm

/-- Halfway through the loop: the nodes behind it, less the evicted ones, and those in front of it still
form the ring, and the evicted nodes are the ones that were freed. -/
structure Halfway (h₀ : Heap ι (TaskInfo w)) (evict : Nat → TaskInfo w → Bool)
    (nodes : List (ι × TaskInfo w)) (pre rest : List ι) (h : Heap ι (TaskInfo w)) (t : Trace ι) : Prop where
  split : ∃ done todo, nodes = done ++ todo ∧ rest = todo.map Prod.fst ∧
    pre = (surviving evict done).map Prod.fst ∧ t.visited = done.map Prod.fst ∧
    t.freed = (evicted evict done).map Prod.fst
  ring : Ring h (pre ++ rest)
  payload : ∀ j, h.payload j = if j ∈ t.freed then none else h₀.payload j

theorem Halfway.round {body : ι → Heap ι (TaskInfo w) → Trace ι → Option (Heap ι (TaskInfo w) × Trace ι)}
    (hbody : Evicts evict body) (hholds : Holds h₀ nodes) {pre rest : List ι} {i : ι} {t : Trace ι}
    (hI : Halfway h₀ evict nodes pre (i :: rest) h t) :
    ∃ h' t', body i h t = some (h', t') ∧
      (Halfway h₀ evict nodes (pre ++ [i]) rest h' t' ∨ Halfway h₀ evict nodes pre rest h' t') := by
  obtain ⟨done, todo, rfl, htodo, rfl, hvisited, hfreed⟩ := hI.split
  obtain ⟨⟨i, ti⟩, todo, rfl, rfl, rfl⟩ : ∃ x todo', todo = x :: todo' ∧ i = x.1 ∧
      rest = todo'.map Prod.fst := by
    cases todo with
    | nil => cases htodo
    | cons x todo' =>
      obtain ⟨rfl, rfl⟩ := List.cons.inj htodo
      exact ⟨x, todo', rfl, rfl, rfl⟩
  have hnodes : done ++ (i, ti) :: todo = (done ++ [(i, ti)]) ++ todo := by simp
  have hnew : i ∉ t.freed := by
    have hnodup := hholds.ring.nodup
    rw [List.map_append, List.map_cons] at hnodup
    rw [hfreed]
    intro hmem
    have hdone := ((evicted_sublist evict done).map Prod.fst).subset hmem
    exact (List.nodup_append.mp hnodup).2.2 i hdone i List.mem_cons_self rfl
  have hpayload : h.payload i = some ti := by
    rw [hI.payload, if_neg hnew]
    exact hholds.payload (i, ti) (by simp)
  have hlength : t.visited.length = done.length := by rw [hvisited, List.length_map]
  rw [hbody i h t ti hpayload, hlength]
  cases hev : evict done.length ti with
  | false =>
    refine ⟨h, _, if_neg (by simp), .inl ⟨⟨done ++ [(i, ti)], todo, hnodes, rfl, ?_, ?_, ?_⟩, ?_, hI.payload⟩⟩
    · simp [surviving_concat, hev]
    · simp [hvisited]
    · simp [evicted_concat, hev, hfreed]
    · rw [List.append_assoc]
      exact hI.ring
  | true =>
    obtain ⟨h₁, h₂, hdel, hfree, hring, hpay⟩ := hI.ring.delete
    refine ⟨h₂, ⟨t.visited ++ [i], t.freed ++ [i]⟩, ?_,
      .inr ⟨⟨done ++ [(i, ti)], todo, hnodes, rfl, ?_, ?_, ?_⟩, hring, ?_⟩⟩
    · simp [evictNode, hdel, hfree]
    · simp [surviving_concat, hev]
    · simp [hvisited]
    · simp [evicted_concat, hev, hfreed]
    · intro k
      rw [hpay, Function.update_apply, hI.payload]
      by_cases hk : k = i
      · simp [hk]
      · simp [hk]

/-- Such a loop ends. It visits every node once, frees the evicted ones and no others, and leaves the
ring of the rest. -/
theorem evict_loop {body : ι → Heap ι (TaskInfo w) → Trace ι → Option (Heap ι (TaskInfo w) × Trace ι)}
    (hbody : Evicts evict body) (hholds : Holds h₀ nodes) {fuel : Nat} (hfuel : nodes.length < fuel) :
    ∃ h', listForEachSafe body fuel h₀ ⟨[], []⟩ =
        some (h', ⟨nodes.map Prod.fst, (evicted evict nodes).map Prod.fst⟩) ∧
      Holds h' (surviving evict nodes) ∧
      ∀ j, h'.payload j = if j ∈ (evicted evict nodes).map Prod.fst then none else h₀.payload j := by
  have hstart : Halfway h₀ evict nodes [] (nodes.map Prod.fst) h₀ ⟨[], []⟩ :=
    ⟨⟨[], nodes, rfl, rfl, rfl, rfl, rfl⟩, hholds.ring, by simp⟩
  obtain ⟨pre, h', t, hloop, hend⟩ := listForEachSafe_rule (I := Halfway h₀ evict nodes) Halfway.ring
    (Halfway.round hbody hholds) hstart (by rw [List.length_map]; exact hfuel)
  obtain ⟨done, todo, hnodes, htodo, hpre, hvisited, hfreed⟩ := hend.split
  obtain rfl : todo = [] := List.map_eq_nil_iff.mp htodo.symm
  obtain rfl : nodes = done := by rw [hnodes, List.append_nil]
  obtain rfl : t = ⟨nodes.map Prod.fst, (evicted evict nodes).map Prod.fst⟩ := by
    rw [← hvisited, ← hfreed]
  have hring := hend.ring
  rw [List.append_nil, hpre] at hring
  refine ⟨h', hloop, ⟨hring, ?_⟩, hend.payload⟩
  intro x hx
  rw [hend.payload, if_neg (surviving_not_evicted evict hholds.ring.nodup hx)]
  exact hholds.payload x ((surviving_sublist evict nodes).subset hx)

end Loop

/-! ### Adding -/

section Add

variable {pid : Int} {jiffies : BitVec w} {l pre rest : List (TaskInfo w)} {ti : TaskInfo w}

theorem modify_append_length {α : Type} (pre : List α) (a : α) (rest : List α) (f : α → α) :
    (pre ++ a :: rest).modify pre.length f = pre ++ f a :: rest := by
  induction pre with
  | nil => rfl
  | cons x pre ih => rw [List.cons_append, List.length_cons, List.modify_succ_cons, ih, List.cons_append]

theorem taskInfoAddToList_hit (kmalloc : Bool) (hpre : ∀ x ∈ pre, x.pid ≠ pid) (hti : ti.pid = pid) :
    ListSync.taskInfoAddToList pid kmalloc jiffies (pre ++ ti :: rest) =
      some (pre ++ ti.refresh jiffies :: rest) := by
  have hnone : pre.findIdx? (fun x => decide (x.pid = pid)) = none := by
    rw [List.findIdx?_eq_none_iff]
    intro x hx
    simpa using hpre x hx
  have hfind : ListSync.taskInfoFindPid pid (pre ++ ti :: rest) = some pre.length := by
    unfold ListSync.taskInfoFindPid
    rw [List.findIdx?_append, hnone, List.findIdx?_cons]
    simp [hti]
  unfold ListSync.taskInfoAddToList addLookup
  rw [hfind, Option.map_some, modify_append_length]

theorem taskInfoAddToList_miss (hl : ∀ x ∈ l, x.pid ≠ pid) :
    ListSync.taskInfoAddToList pid true jiffies l = some (⟨pid, jiffies, 0⟩ :: l) := by
  have hfind : ListSync.taskInfoFindPid pid l = none := by
    rw [taskInfoFindPid_eq_none]
    intro hmem
    obtain ⟨x, hx, heq⟩ := List.mem_map.mp hmem
    exact hl x hx heq
  unfold ListSync.taskInfoAddToList addLookup
  rw [hfind]
  rfl

theorem find?_map_of_eq {α β : Type} {f : α → β} {t : β → Bool} {u : α → Bool} {l : List α}
    (h : ∀ x ∈ l, t (f x) = u x) : (l.map f).find? t = (l.find? u).map f := by
  induction l with
  | nil => rfl
  | cons x l ih =>
    rw [List.forall_mem_cons] at h
    rw [List.map_cons, List.find?_cons, List.find?_cons, h.1, ih h.2]
    cases u x with
    | true => rfl
    | false => rfl

variable {h : Heap ι (TaskInfo w)} {nodes : List (ι × TaskInfo w)} {fuel : Nat}

theorem taskInfoFindPid_ring (hholds : Holds h nodes) (hfuel : nodes.length < fuel) (pid : Int) :
    taskInfoFindPid pid fuel h = some ((nodes.find? fun x => x.2.pid = pid).map Prod.fst) := by
  have htest : ∀ x ∈ nodes, (h.payload x.1).any (fun ti => ti.pid = pid) = decide (x.2.pid = pid) := by
    intro x hx
    rw [hholds.payload x hx]
    rfl
  have hpayload : ∀ i ∈ nodes.map Prod.fst, (h.payload i).map (fun ti => decide (ti.pid = pid)) =
      some ((h.payload i).any fun ti => ti.pid = pid) := by
    intro i hi
    obtain ⟨x, hx, rfl⟩ := List.mem_map.mp hi
    rw [hholds.payload x hx]
    rfl
  have hlength : (nodes.map Prod.fst).length < fuel := by rw [List.length_map]; exact hfuel
  rw [taskInfoFindPid, listForEachFind_ring _ hholds.ring hpayload hlength]
  exact congrArg some (find?_map_of_eq (f := Prod.fst)
    (t := fun i => (h.payload i).any fun ti => ti.pid = pid) htest)

variable [DecidableEq ι]

theorem taskInfoAddToList_found (hholds : Holds h nodes) (hfuel : nodes.length < fuel)
    (jiffies : BitVec w) (new : ι) (garbage : Links ι) {i : ι} {pre rest : List (ι × TaskInfo w)}
    (hnodes : nodes = pre ++ (i, ti) :: rest)
    (hpre : ∀ x ∈ pre, x.2.pid ≠ pid) (hti : ti.pid = pid) :
    ∃ h', taskInfoAddToList pid jiffies new garbage fuel h = some h' ∧
      Holds h' (pre ++ (i, ti.refresh jiffies) :: rest) := by
  have hfind : nodes.find? (fun x => decide (x.2.pid = pid)) = some (i, ti) := by
    rw [List.find?_eq_some_iff_append]
    refine ⟨by simpa using hti, pre, rest, hnodes, ?_⟩
    intro x hx
    simpa using hpre x hx
  have hi : h.payload i = some ti := hholds.payload (i, ti) (by simp [hnodes])
  obtain ⟨h', hset, hring, hpayload⟩ := hholds.ring.setPayload hi (TaskInfo.refresh jiffies)
  refine ⟨h', ?_, ?_, ?_⟩
  · unfold taskInfoAddToList
    rw [taskInfoFindPid_ring hholds hfuel, hfind]
    exact hset
  · rw [hnodes, List.map_append, List.map_cons] at hring
    rw [List.map_append, List.map_cons]
    exact hring
  · have hnodup := hholds.ring.nodup
    rw [hnodes, List.map_append, List.map_cons, List.nodup_middle, List.nodup_cons] at hnodup
    have hother : ∀ x ∈ pre ++ rest, h'.payload x.1 = some x.2 := by
      intro x hx
      have hne : x.1 ≠ i := by
        rintro rfl
        apply hnodup.1
        rw [← List.map_append]
        exact List.mem_map.mpr ⟨x, hx, rfl⟩
      rw [hpayload, Function.update_of_ne hne]
      apply hholds.payload
      rw [hnodes]
      rcases List.mem_append.mp hx with hx | hx
      · exact List.mem_append_left _ hx
      · exact List.mem_append_right _ (List.mem_cons_of_mem _ hx)
    rw [List.forall_mem_append] at hother
    rw [List.forall_mem_append, List.forall_mem_cons]
    refine ⟨hother.1, ?_, hother.2⟩
    rw [hpayload, Function.update_self]

theorem taskInfoAddToList_new (hholds : Holds h nodes) (hfuel : nodes.length < fuel)
    (jiffies : BitVec w) {new : ι} (hnew : h.next (.node new) = none) (garbage : Links ι) (hmiss : ∀ x ∈ nodes, x.2.pid ≠ pid) :
    ∃ h', taskInfoAddToList pid jiffies new garbage fuel h = some h' ∧
      Holds h' ((new, ⟨pid, jiffies, 0⟩) :: nodes) := by
  have hfind : nodes.find? (fun x => decide (x.2.pid = pid)) = none := by
    rw [List.find?_eq_none]
    intro x hx
    simpa using hmiss x hx
  have hnot := hholds.ring.not_mem hnew
  obtain ⟨h₁, hmalloc, hring₁, hpayload₁, hnext, hprev⟩ := hholds.ring.kmalloc hnew garbage
    ⟨pid, jiffies, 0⟩
  obtain ⟨h₂, hadd, hring₂, hpayload₂⟩ := hring₁.listAdd hnot hnext hprev
  refine ⟨h₂, ?_, hring₂, ?_⟩
  · unfold taskInfoAddToList
    rw [taskInfoFindPid_ring hholds hfuel, hfind]
    show (h.kmalloc new garbage ⟨pid, jiffies, 0⟩).bind (fun h => h.listAdd new) = some h₂
    rw [hmalloc, Option.bind_some, hadd]
  · rw [hpayload₂, hpayload₁, List.forall_mem_cons]
    constructor
    · rw [Function.update_self]
    · intro x hx
      have hne : x.1 ≠ new := by
        rintro rfl
        exact hnot (List.mem_map.mpr ⟨x, hx, rfl⟩)
      rw [Function.update_of_ne hne]
      exact hholds.payload x hx

end Add

/-! ### The result -/

theorem taskInfoAddToList_ring [DecidableEq ι] {h : Heap ι (TaskInfo w)} {nodes : List (ι × TaskInfo w)}
    (hholds : Holds h nodes) {fuel : Nat} (hfuel : nodes.length < fuel) (pid : Int) (jiffies : BitVec w)
    {new : ι} (hnew : h.next (.node new) = none) (garbage : Links ι) :
    ∃ h' nodes', taskInfoAddToList pid jiffies new garbage fuel h = some h' ∧ Holds h' nodes' ∧
      (nodes'.map Prod.fst = nodes.map Prod.fst ∨ nodes'.map Prod.fst = new :: nodes.map Prod.fst) ∧
      ListSync.taskInfoAddToList pid true jiffies (nodes.map Prod.snd) = some (nodes'.map Prod.snd) := by
  cases hfind : nodes.find? (fun x => decide (x.2.pid = pid)) with
  | some x =>
    obtain ⟨hx, pre, rest, hnodes, hpre⟩ := List.find?_eq_some_iff_append.mp hfind
    rw [decide_eq_true_iff] at hx
    have hpre' : ∀ y ∈ pre, y.2.pid ≠ pid := by
      intro y hy
      simpa using hpre y hy
    obtain ⟨h', hadd, hholds'⟩ := taskInfoAddToList_found hholds hfuel jiffies new garbage hnodes hpre' hx
    refine ⟨h', _, hadd, hholds', ?_, ?_⟩
    · left
      rw [hnodes, List.map_append, List.map_append]
      rfl
    · rw [hnodes, List.map_append, List.map_append]
      apply taskInfoAddToList_hit true _ hx
      intro y hy
      obtain ⟨z, hz, rfl⟩ := List.mem_map.mp hy
      exact hpre' z hz
  | none =>
    have hmiss : ∀ x ∈ nodes, x.2.pid ≠ pid := by
      intro x hx
      simpa using List.find?_eq_none.mp hfind x hx
    obtain ⟨h', hadd, hholds'⟩ := taskInfoAddToList_new hholds hfuel jiffies hnew garbage hmiss
    refine ⟨h', _, hadd, hholds', .inr rfl, ?_⟩
    apply taskInfoAddToList_miss
    intro y hy
    obtain ⟨z, hz, rfl⟩ := List.mem_map.mp hy
    exact hmiss z hz

/-- On every ring and with enough fuel for it: `task_info_remove_expired` visits every node once, frees
the expired ones and no others, and leaves the ring of the rest, with the entries that the function on
lists keeps; `task_info_purge_list` frees every node and leaves the empty ring; and
`task_info_add_to_list` with a fresh node leaves a ring with at most that node more. A node that is freed
twice or touched after that would make the result `none`. -/
theorem ring_operations [DecidableEq ι] {h : Heap ι (TaskInfo w)} {nodes : List (ι × TaskInfo w)}
    (hholds : Holds h nodes) {fuel : Nat} (hfuel : nodes.length < fuel) (HZ : Nat) :
    (∀ jiffies : Nat → BitVec w, ∃ h' kept freed,
      taskInfoRemoveExpired HZ jiffies fuel h = some (h', ⟨nodes.map Prod.fst, freed.map Prod.fst⟩) ∧
      kept = surviving (fun k ti => ti.expired HZ (jiffies k)) nodes ∧
      freed = evicted (fun k ti => ti.expired HZ (jiffies k)) nodes ∧ (freed.map Prod.fst).Nodup ∧
      Holds h' kept ∧
      (∀ j, h'.payload j = if j ∈ freed.map Prod.fst then none else h.payload j) ∧
      ListSync.taskInfoRemoveExpired HZ jiffies (nodes.map Prod.snd) =
        (kept.map Prod.snd, freed.map Prod.snd)) ∧
    (∃ h', taskInfoPurgeList fuel h = some (h', ⟨nodes.map Prod.fst, nodes.map Prod.fst⟩) ∧ Holds h' [] ∧
      ∀ j, h'.payload j = if j ∈ nodes.map Prod.fst then none else h.payload j) ∧
    (∀ (pid : Int) (jiffies : BitVec w) (new : ι) (garbage : Links ι), h.next (.node new) = none →
      ∃ h' nodes', taskInfoAddToList pid jiffies new garbage fuel h = some h' ∧ Holds h' nodes' ∧
        (nodes'.map Prod.fst = nodes.map Prod.fst ∨ nodes'.map Prod.fst = new :: nodes.map Prod.fst) ∧
        ListSync.taskInfoAddToList pid true jiffies (nodes.map Prod.snd) = some (nodes'.map Prod.snd)) := by
  refine ⟨?_, ?_, ?_⟩
  · intro jiffies
    obtain ⟨h', hloop, hkept, hpayload⟩ := evict_loop (removeExpiredBody_evicts HZ jiffies) hholds hfuel
    have hnodup := hholds.ring.nodup.sublist
      ((evicted_sublist (fun k ti => ti.expired HZ (jiffies k)) nodes).map Prod.fst)
    exact ⟨h', _, _, hloop, rfl, rfl, hnodup, hkept, hpayload, taskInfoRemoveExpired_eq HZ jiffies nodes⟩
  · obtain ⟨h', hloop, hkept, hpayload⟩ := evict_loop evictNode_evicts hholds hfuel
    have hall : evicted (fun _ _ => true) nodes = nodes := by simp [evicted]
    have hnone : surviving (fun _ _ => true) nodes = [] := by simp [surviving]
    rw [hall] at hloop hpayload
    rw [hnone] at hkept
    exact ⟨h', hloop, hkept, hpayload⟩
  · intro pid jiffies new garbage hnew
    exact taskInfoAddToList_ring hholds hfuel pid jiffies hnew garbage

/-- Two nodes; the entry of the first is old. -/
def twoNodes : Heap Nat (TaskInfo 64) where
  head := ⟨.node 0, .node 1⟩
  node := fun i =>
    if i = 0 then some ⟨⟨.node 1, .head⟩, ⟨7, 0, 0⟩, true⟩
    else if i = 1 then some ⟨⟨.head, .node 0⟩, ⟨8, 900, 0⟩, true⟩
    else none

theorem twoNodes_holds : Holds twoNodes [(0, ⟨7, 0, 0⟩), (1, ⟨8, 900, 0⟩)] :=
  ⟨⟨by decide, ⟨⟨rfl, rfl⟩, ⟨rfl, rfl⟩, rfl, rfl⟩⟩, by simp [Heap.payload, Heap.get, twoNodes]⟩

/-- The old entry is evicted at the front of the ring, where the loop stands. -/
theorem ring_operations_twoNodes :
    ∃ h', taskInfoRemoveExpired 250 (fun _ => 1000) 3 twoNodes = some (h', ⟨[0, 1], [0]⟩) ∧
      Holds h' [(1, ⟨8, 900, 0⟩)] := by
  obtain ⟨h', kept, freed, hrun, rfl, rfl, -, hholds, -⟩ :=
    (ring_operations twoNodes_holds (Nat.lt_succ_self 2) 250).1 fun _ => 1000
  exact ⟨h', hrun, hholds⟩

end OnHeap

end DeviceDrivers.ListSync
