import DeviceDrivers.Lib.RwLock
import DeviceDrivers.ListSync.OnHeap

/-!
# The calls of `list-sync.c` under its lock

Any number of threads call `task_info_add_to_list`, `task_info_remove_expired` and `task_info_print_list` on
the nodes of one list. The rounds of their loops interleave as `rwlock_t lock` lets them: a walk of
`task_info_print_list` holds it for reading, everything else for writing, and the allocation between the two
sections of `task_info_add_to_list` is made without it.

A section that is under way has not gone past what its loop shows (`Midway`), so its next round never meets a node
that is freed or poisoned (`locked_never_faults`). Only the section that links the `NULL` of a failed `kmalloc` has no
round to make. As a whole, a section does what the function on lists does (`ends_of_rounds`).
-/

namespace DeviceDrivers.ListSync

open ListHead RwLock

namespace OnHeap

variable {ι : Type} {w : Nat}

/-- A call of a thread. `task_info_add_for_current` is four calls of the first kind. -/
inductive Call
  | addToList (pid : Int)
  | removeExpired
  | printList

/-- Where a thread stands; the position of a loop is `none` before its first access. -/
inductive Pc (ι : Type) (w : Nat)
  | idle
  | adding (pid : Int)
  | looking (pid : Int) (p : Option (Ptr ι))
  | allocating (pid : Int)
  | linking (ti : Option (TaskInfo w))
  | inLink (ti : Option (TaskInfo w))
  | expiring
  | removing (walk : Option (Ptr ι × Ptr ι)) (t : Trace ι)
  | printing
  | walking (p : Option (Ptr ι)) (lines : List (Int × BitVec w))

/-- What a step finds: the call to make, the outcome of `kmalloc`, the reading of `jiffies` in a round, or
the address of the entry that is linked and what its links hold. -/
inductive Input (ι : Type) (w : Nat)
  | call (c : Call)
  | kmalloc (ok : Bool) (jiffies : BitVec w)
  | round (jiffies : BitVec w)
  | node (new : ι) (garbage : Links ι)

/-- How a section ends. -/
inductive Output (ι : Type) (w : Nat)
  | looked (pid : Int) (found : Bool)
  | linked (new : ι)
  | removed (t : Trace ι)
  | printed (lines : List (Int × BitVec w))

def outsideStep : Pc ι w → Input ι w → Option (Pc ι w)
  | .idle, .call (.addToList pid) => some (.adding pid)
  | .idle, .call .removeExpired => some .expiring
  | .idle, .call .printList => some .printing
  | .allocating pid, .kmalloc ok jiffies => some (.linking (taskInfoAlloc pid ok jiffies))
  | _, _ => none

/-- `write_lock` and `read_lock` -/
def enterSection : Pc ι w → Option (Mode × Pc ι w)
  | .adding pid => some (.write, .looking pid none)
  | .linking ti => some (.write, .inLink ti)
  | .expiring => some (.write, .removing none ⟨[], []⟩)
  | .printing => some (.read, .walking none [])
  | _ => none

/-- What `task_info_print_list` prints of an entry. -/
def TaskInfo.line (ti : TaskInfo w) : Int × BitVec w := (ti.pid, ti.timestamp)

/-- A round of `task_info_print_list`. -/
def printRound (p : Option (Ptr ι)) (lines : List (Int × BitVec w)) (h : Heap ι (TaskInfo w)) :
    Option (Pc ι w × Option (Output ι w)) :=
  match p with
  | none => do
    let p ← h.next .head
    some (.walking (some p) lines, none)
  | some .head => some (.idle, some (.printed lines))
  | some (.node i) => do
    let ti ← h.payload i
    let p ← h.next (.node i)
    some (.walking (some p) (lines ++ [TaskInfo.line ti]), none)
  | some _ => none

def readRound (h : Heap ι (TaskInfo w)) : Pc ι w → Input ι w → Option (Pc ι w × Option (Output ι w))
  | .walking p lines, .round _ => printRound p lines h
  | _, _ => none

section Code

variable [DecidableEq ι]

/-- A round of `task_info_find_pid` in the first section of `task_info_add_to_list`, with what the section does to
the entry it finds. -/
def lookRound (pid : Int) (p : Option (Ptr ι)) (jiffies : BitVec w) (h : Heap ι (TaskInfo w)) :
    Option (Heap ι (TaskInfo w) × Pc ι w × Option (Output ι w)) :=
  match p with
  | none => do
    let p ← h.next .head
    some (h, .looking pid (some p), none)
  | some .head => some (h, .allocating pid, some (.looked pid false))
  | some (.node i) => do
    let ti ← h.payload i
    if ti.pid = pid then
      let h ← h.setPayload i (TaskInfo.refresh jiffies)
      some (h, .idle, some (.looked pid true))
    else
      let p ← h.next (.node i)
      some (h, .looking pid (some p), none)
  | some _ => none

/-- The second section. The entry is at `new`, which no other entry is; `ti` is `none` for `NULL`. -/
def linkRound (ti : Option (TaskInfo w)) (new : ι) (garbage : Links ι) (h : Heap ι (TaskInfo w)) :
    Option (Heap ι (TaskInfo w) × Pc ι w × Option (Output ι w)) := do
  let ti ← ti
  let h ← h.kmalloc new garbage ti
  let h ← h.listAdd new
  some (h, .idle, some (.linked new))

/-- A round of `task_info_remove_expired`. -/
def removeRound (HZ : Nat) (walk : Option (Ptr ι × Ptr ι)) (t : Trace ι) (jiffies : BitVec w)
    (h : Heap ι (TaskInfo w)) : Option (Heap ι (TaskInfo w) × Pc ι w × Option (Output ι w)) :=
  match walk with
  | none => do
    let pos ← h.next .head
    let n ← h.next pos
    some (h, .removing (some (pos, n)) t, none)
  | some (.head, _) => some (h, .idle, some (.removed t))
  | some (.node i, n) => do
    let r ← removeExpiredBody HZ (fun _ => jiffies) i h t
    let n' ← r.1.next n
    some (r.1, .removing (some (n, n')) r.2, none)
  | some _ => none

def writeRound (HZ : Nat) (h : Heap ι (TaskInfo w)) :
    Pc ι w → Input ι w → Option (Heap ι (TaskInfo w) × Pc ι w × Option (Output ι w))
  | .looking pid p, .round jiffies => lookRound pid p jiffies h
  | .inLink ti, .node new garbage => linkRound ti new garbage h
  | .removing walk t, .round jiffies => removeRound HZ walk t jiffies h
  | _, _ => none

def program (ι : Type) [DecidableEq ι] (w HZ : Nat) :
    Program (Heap ι (TaskInfo w)) (Pc ι w) (Input ι w) (Output ι w) where
  outside := outsideStep
  enter := enterSection
  readRound := readRound
  writeRound := writeRound HZ

/-- `INIT_LIST_HEAD`, before any thread has called. -/
def noEntries (ι : Type) (w : Nat) : Threads (Heap ι (TaskInfo w)) (Pc ι w) :=
  ⟨⟨⟨.head, .head⟩, fun _ => none⟩, fun _ => .idle⟩

def threads (ι : Type) [DecidableEq ι] (w HZ : Nat) :
    Machine (Locked (Heap ι (TaskInfo w)) (Pc ι w)) (LockedEvent (Input ι w)) (Option (Output ι w)) :=
  (program ι w HZ).locked (noEntries ι w)

end Code

/-! ### Where a section stands -/

/-- Where the thread stood before the section it is in. -/
def Pc.before : Pc ι w → Pc ι w
  | .looking pid _ => .adding pid
  | .inLink ti => .linking ti
  | .removing _ _ => .expiring
  | .walking _ _ => .printing
  | pc => pc

/-- How it holds the lock there. -/
def Pc.mode : Pc ι w → Option Mode
  | .looking _ _ => some .write
  | .inLink _ => some .write
  | .removing _ _ => some .write
  | .walking _ _ => some .read
  | _ => none

/-- The test of the `k`-th round of `task_info_remove_expired`. -/
def expiredAt (HZ : Nat) (jiffies : Nat → BitVec w) (k : Nat) (ti : TaskInfo w) : Bool := ti.expired HZ (jiffies k)

/-- A loop that only reads has passed `pre` and stands in front of `rest`. -/
def StandsAt (nodes pre rest : List (ι × TaskInfo w)) (p : Ptr ι) : Prop :=
  nodes = pre ++ rest ∧ p = firstPtr (rest.map Prod.fst)

def Input.jiffies : Input ι w → BitVec w
  | .round jiffies => jiffies
  | _ => 0

/-- The reading of `jiffies` at the `k`-th entry of a loop; its first round finds the first entry. -/
def readings (xs : List (Input ι w)) (k : Nat) : BitVec w := ((xs.map Input.jiffies)[k + 1]?).getD 0

/-- The reading in the last round. -/
def lastReading (xs : List (Input ι w)) : BitVec w := ((xs.map Input.jiffies).getLast?).getD 0

theorem readings_append {xs : List (Input ι w)} {k : Nat} (hk : k + 1 < xs.length) (ys : List (Input ι w)) :
    readings (xs ++ ys) k = readings xs k := by
  unfold readings
  rw [List.map_append, List.getElem?_append_left (by rwa [List.length_map])]

theorem readings_concat {xs : List (Input ι w)} {k : Nat} (hk : xs.length = k + 1) (jiffies : BitVec w) :
    readings (xs ++ [.round jiffies]) k = jiffies := by
  unfold readings
  rw [List.map_append, List.map_singleton, ← hk, ← List.length_map Input.jiffies, List.getElem?_concat_length]
  rfl

@[simp] theorem lastReading_concat (xs : List (Input ι w)) (jiffies : BitVec w) :
    lastReading (xs ++ [.round jiffies]) = jiffies := by
  unfold lastReading
  rw [List.map_append, List.map_singleton, List.getLast?_concat]
  rfl

section Midway

variable [DecidableEq ι]

/-- A section on the ring of `nodes` that is under way: `h₀` is the heap where it began, `h` where it is, and `xs` are
the inputs of its rounds. -/
def Midway (HZ : Nat) (h₀ : Heap ι (TaskInfo w)) (nodes : List (ι × TaskInfo w)) (xs : List (Input ι w))
    (h : Heap ι (TaskInfo w)) : Pc ι w → Prop
  | .looking _ none => h = h₀ ∧ xs = []
  | .looking pid (some p) => h = h₀ ∧
      ∃ pre rest, StandsAt nodes pre rest p ∧ xs.length = pre.length + 1 ∧ ∀ x ∈ pre, x.2.pid ≠ pid
  | .inLink _ => h = h₀ ∧ xs = []
  | .removing none t => h = h₀ ∧ xs = [] ∧ t = ⟨[], []⟩
  | .removing (some (pos, n)) t => xs.length = t.visited.length + 1 ∧
      ∃ pre rest, Halfway h₀ (expiredAt HZ (readings xs)) nodes pre rest h t ∧
        pos = firstPtr rest ∧ ∀ i rest', rest = i :: rest' → n = firstPtr rest'
  | .walking none lines => h = h₀ ∧ xs = [] ∧ lines = []
  | .walking (some p) lines => h = h₀ ∧ ∃ pre rest, StandsAt nodes pre rest p ∧ xs.length = pre.length + 1 ∧
      lines = pre.map fun x => TaskInfo.line x.2
  | _ => False

/-- How a section on the ring of `nodes` in `h₀` ends, by where its thread stood before it; `xs` are the inputs of all
its rounds. -/
inductive Ends (HZ : Nat) (h₀ : Heap ι (TaskInfo w)) (nodes : List (ι × TaskInfo w)) (xs : List (Input ι w)) :
    Pc ι w → Heap ι (TaskInfo w) → Pc ι w → Output ι w → Prop
  | miss {pid : Int} (hmiss : ∀ x ∈ nodes, x.2.pid ≠ pid) :
    Ends HZ h₀ nodes xs (.adding pid) h₀ (.allocating pid) (.looked pid false)
  | hit {pid : Int} {pre rest : List (ι × TaskInfo w)} {i : ι} {ti : TaskInfo w} {h : Heap ι (TaskInfo w)}
      (hnodes : nodes = pre ++ (i, ti) :: rest) (hpre : ∀ x ∈ pre, x.2.pid ≠ pid) (hti : ti.pid = pid)
      (hholds : Holds h (pre ++ (i, ti.refresh (lastReading xs)) :: rest)) :
    Ends HZ h₀ nodes xs (.adding pid) h .idle (.looked pid true)
  | linked {ti : TaskInfo w} {new : ι} {h : Heap ι (TaskInfo w)} (hholds : Holds h ((new, ti) :: nodes)) :
    Ends HZ h₀ nodes xs (.linking (some ti)) h .idle (.linked new)
  | removed {h : Heap ι (TaskInfo w)} (hholds : Holds h (surviving (expiredAt HZ (readings xs)) nodes)) :
    Ends HZ h₀ nodes xs .expiring h .idle
      (.removed ⟨nodes.map Prod.fst, (evicted (expiredAt HZ (readings xs)) nodes).map Prod.fst⟩)
  | printed : Ends HZ h₀ nodes xs .printing h₀ .idle (.printed (nodes.map fun x => TaskInfo.line x.2))

/-- A round leads on in the section, or ends it. -/
def Goes (HZ : Nat) (h₀ : Heap ι (TaskInfo w)) (nodes : List (ι × TaskInfo w)) (xs : List (Input ι w)) (pc : Pc ι w)
    (r : Heap ι (TaskInfo w) × Pc ι w × Option (Output ι w)) : Prop :=
  (r.2.2 = none ∧ Midway HZ h₀ nodes xs r.1 r.2.1 ∧ r.2.1.before = pc.before ∧ r.2.1.mode = pc.mode) ∨
    ∃ o, r.2.2 = some o ∧ Ends HZ h₀ nodes xs pc.before r.1 r.2.1 o

/-- The inputs that a round can have; the address of a new entry is one that is not in use. -/
def Fits (h : Heap ι (TaskInfo w)) : Pc ι w → Input ι w → Prop
  | .looking _ _, .round _ => True
  | .removing _ _, .round _ => True
  | .walking _ _, .round _ => True
  | .inLink _, .node new _ => h.next (.node new) = none
  | _, _ => False

variable {HZ : Nat} {h h₀ : Heap ι (TaskInfo w)} {nodes pre rest : List (ι × TaskInfo w)} {xs : List (Input ι w)}

/-! ### The rounds of the loops -/

omit [DecidableEq ι] in
theorem Holds.standsAt_first (hholds : Holds h nodes) :
    ∃ p, h.next .head = some p ∧ StandsAt nodes [] nodes p :=
  ⟨_, hholds.ring.next_head, rfl, rfl⟩

omit [DecidableEq ι] in
theorem Holds.standsAt_next {i : ι} {ti : TaskInfo w} (hholds : Holds h (pre ++ (i, ti) :: rest)) :
    h.payload i = some ti ∧ ∃ p, h.next (.node i) = some p ∧
      StandsAt (pre ++ (i, ti) :: rest) (pre ++ [(i, ti)]) rest p := by
  have hring := hholds.ring
  rw [List.map_append, List.map_cons] at hring
  exact ⟨hholds.payload (i, ti) (by simp), _, hring.around.1, by simp, rfl⟩

theorem lookRound_goes (hholds : Holds h nodes) (pid : Int) {p : Option (Ptr ι)}
    (hmid : Midway HZ h nodes xs h (.looking pid p)) (jiffies : BitVec w) :
    ∃ r, lookRound pid p jiffies h = some r ∧ Goes HZ h nodes (xs ++ [.round jiffies]) (.looking pid p) r := by
  cases p with
  | none =>
    obtain ⟨-, rfl⟩ := hmid
    obtain ⟨p, hnext, hstands⟩ := hholds.standsAt_first
    refine ⟨(h, .looking pid (some p), none), by simp [lookRound, hnext], .inl ⟨rfl, ?_, rfl, rfl⟩⟩
    exact ⟨rfl, [], nodes, hstands, rfl, by simp⟩
  | some p =>
    obtain ⟨-, pre, rest, ⟨hnodes, rfl⟩, hlen, hpre⟩ := hmid
    cases rest with
    | nil =>
      refine ⟨_, rfl, .inr ⟨_, rfl, .miss ?_⟩⟩
      rw [hnodes, List.append_nil]
      exact hpre
    | cons x rest =>
      obtain ⟨i, ti⟩ := x
      subst hnodes
      obtain ⟨hpayload, p, hnext, hstands⟩ := hholds.standsAt_next
      by_cases hti : ti.pid = pid
      · -- the whole function refreshes the same entry
        obtain ⟨h', hadd, hholds'⟩ := taskInfoAddToList_found hholds (Nat.lt_succ_self _) jiffies i ⟨.head, .head⟩
          rfl hpre hti
        have hfind : (pre ++ (i, ti) :: rest).find? (fun x => decide (x.2.pid = pid)) = some (i, ti) := by
          rw [List.find?_eq_some_iff_append]
          exact ⟨by simpa using hti, pre, rest, rfl, by simpa using hpre⟩
        unfold taskInfoAddToList at hadd
        rw [taskInfoFindPid_ring hholds (Nat.lt_succ_self _), hfind] at hadd
        have hset : h.setPayload i (TaskInfo.refresh jiffies) = some h' := hadd
        refine ⟨(h', .idle, some (.looked pid true)), ?_, .inr ⟨_, rfl, .hit rfl hpre hti ?_⟩⟩
        · simp [lookRound, firstPtr, firstOf, hpayload, hti, hset]
        · rw [lastReading_concat]
          exact hholds'
      · refine ⟨(h, .looking pid (some p), none), ?_, .inl ⟨rfl, ⟨rfl, _, _, hstands, ?_, ?_⟩, rfl, rfl⟩⟩
        · simp [lookRound, firstPtr, firstOf, hpayload, hti, hnext]
        · simp [hlen]
        · rw [List.forall_mem_append, List.forall_mem_singleton]
          exact ⟨hpre, hti⟩

theorem printRound_goes (hholds : Holds h nodes) {p : Option (Ptr ι)} {lines : List (Int × BitVec w)}
    (hmid : Midway HZ h nodes xs h (.walking p lines)) (x : Input ι w) :
    ∃ r, printRound p lines h = some r ∧ Goes HZ h nodes (xs ++ [x]) (.walking p lines) (h, r) := by
  cases p with
  | none =>
    obtain ⟨-, rfl, rfl⟩ := hmid
    obtain ⟨p, hnext, hstands⟩ := hholds.standsAt_first
    refine ⟨(.walking (some p) [], none), by simp [printRound, hnext], .inl ⟨rfl, ?_, rfl, rfl⟩⟩
    exact ⟨rfl, [], nodes, hstands, rfl, rfl⟩
  | some p =>
    obtain ⟨-, pre, rest, ⟨hnodes, rfl⟩, hlen, rfl⟩ := hmid
    cases rest with
    | nil =>
      rw [List.append_nil] at hnodes
      subst hnodes
      exact ⟨_, rfl, .inr ⟨_, rfl, .printed⟩⟩
    | cons x rest =>
      obtain ⟨i, ti⟩ := x
      subst hnodes
      obtain ⟨hpayload, p, hnext, hstands⟩ := hholds.standsAt_next
      refine ⟨(.walking (some p) (pre.map (fun x => TaskInfo.line x.2) ++ [TaskInfo.line ti]), none), ?_,
        .inl ⟨rfl, ⟨rfl, _, _, hstands, ?_, ?_⟩, rfl, rfl⟩⟩
      · simp [printRound, firstPtr, firstOf, hpayload, hnext]
      · simp [hlen]
      · simp

theorem linkRound_goes (hholds : Holds h nodes) (ti : TaskInfo w) {new : ι} (hnew : h.next (.node new) = none)
    (garbage : Links ι) :
    ∃ r, linkRound (some ti) new garbage h = some r ∧
      Goes HZ h nodes [.node new garbage] (.inLink (some ti)) r := by
  have hnot := hholds.ring.not_mem hnew
  obtain ⟨h₁, hmalloc, hring₁, hpayload₁, hnext, hprev⟩ := hholds.ring.kmalloc hnew garbage ti
  obtain ⟨h₂, hadd, hring₂, hpayload₂⟩ := hring₁.listAdd hnot hnext hprev
  refine ⟨(h₂, .idle, some (.linked new)), ?_, .inr ⟨_, rfl, .linked ⟨hring₂, ?_⟩⟩⟩
  · simp [linkRound, hmalloc, hadd]
  · rw [hpayload₂, hpayload₁, List.forall_mem_cons, Function.update_self]
    refine ⟨rfl, ?_⟩
    intro x hx
    have hne : x.1 ≠ new := by
      rintro rfl
      exact hnot (List.mem_map.mpr ⟨x, hx, rfl⟩)
    rw [Function.update_of_ne hne]
    exact hholds.payload x hx

/-! ### The loop that evicts -/

theorem removeExpiredBody_visited {jiffies : Nat → BitVec w} {i : ι} {h' : Heap ι (TaskInfo w)} {t t' : Trace ι}
    (hbody : removeExpiredBody HZ jiffies i h t = some (h', t')) : t'.visited = t.visited ++ [i] := by
  obtain ⟨ti, -, hbody⟩ := Option.bind_eq_some_iff.mp hbody
  split_ifs at hbody
  · obtain ⟨h₁, -, hbody⟩ := Option.bind_eq_some_iff.mp hbody
    obtain ⟨h₂, -, hbody⟩ := Option.bind_eq_some_iff.mp hbody
    obtain ⟨-, rfl⟩ := Prod.mk.inj (Option.some.inj hbody)
    rfl
  · obtain ⟨-, rfl⟩ := Prod.mk.inj (Option.some.inj hbody)
    rfl

theorem Halfway.congr {evict evict' : Nat → TaskInfo w → Bool} {pre rest : List ι} {t : Trace ι}
    (hI : Halfway h₀ evict nodes pre rest h t) (heq : ∀ k < t.visited.length, evict' k = evict k) :
    Halfway h₀ evict' nodes pre rest h t := by
  obtain ⟨done, todo, hnodes, hrest, hpre, hvisited, hfreed⟩ := hI.split
  rw [hvisited, List.length_map] at heq
  have hsame : ∀ x ∈ done.zipIdx, evict' x.2 x.1.2 = evict x.2 x.1.2 := by
    intro x hx
    rw [heq x.2 (by simpa using List.snd_lt_of_mem_zipIdx hx)]
  have hsurviving : surviving evict' done = surviving evict done := by
    unfold surviving
    congr 1
    apply List.filter_congr
    intro x hx
    rw [hsame x hx]
  have hevicted : evicted evict' done = evicted evict done := by
    unfold evicted
    congr 1
    exact List.filter_congr hsame
  refine ⟨⟨done, todo, hnodes, hrest, ?_, hvisited, ?_⟩, hI.ring, hI.payload⟩
  · rw [hpre, hsurviving]
  · rw [hfreed, hevicted]

theorem Halfway.finished {evict : Nat → TaskInfo w → Bool} {pre : List ι} {t : Trace ι} (hholds : Holds h₀ nodes)
    (hI : Halfway h₀ evict nodes pre [] h t) :
    t = ⟨nodes.map Prod.fst, (evicted evict nodes).map Prod.fst⟩ ∧ Holds h (surviving evict nodes) := by
  obtain ⟨done, todo, hnodes, htodo, hpre, hvisited, hfreed⟩ := hI.split
  obtain rfl : todo = [] := List.map_eq_nil_iff.mp htodo.symm
  obtain rfl : nodes = done := by rw [hnodes, List.append_nil]
  have hring := hI.ring
  rw [List.append_nil, hpre] at hring
  refine ⟨?_, hring, ?_⟩
  · rw [← hvisited, ← hfreed]
  · intro x hx
    rw [hI.payload, hfreed, if_neg (surviving_not_evicted evict hholds.ring.nodup hx)]
    exact hholds.payload x ((surviving_sublist evict nodes).subset hx)

theorem removeRound_goes (hholds : Holds h₀ nodes) {walk : Option (Ptr ι × Ptr ι)} {t : Trace ι}
    (hmid : Midway HZ h₀ nodes xs h (.removing walk t)) (jiffies : BitVec w) :
    ∃ r, removeRound HZ walk t jiffies h = some r ∧
      Goes HZ h₀ nodes (xs ++ [.round jiffies]) (.removing walk t) r := by
  cases walk with
  | none =>
    obtain ⟨rfl, rfl, rfl⟩ := hmid
    obtain ⟨n, hnext, hn⟩ := @Ring.next_firstPtr _ _ h [] (nodes.map Prod.fst) hholds.ring
    refine ⟨(h, .removing (some (firstPtr (nodes.map Prod.fst), n)) ⟨[], []⟩, none), ?_, .inl ⟨rfl, ?_, rfl, rfl⟩⟩
    · simp [removeRound, hholds.ring.next_head, hnext]
    · refine ⟨rfl, [], nodes.map Prod.fst, ?_, rfl, hn⟩
      exact ⟨⟨[], nodes, rfl, rfl, rfl, rfl, rfl⟩, hholds.ring, by simp⟩
  | some walk =>
    obtain ⟨pos, n⟩ := walk
    obtain ⟨hlen, pre, rest, hI, rfl, hn⟩ := hmid
    -- the readings so far do not depend on this one
    have hI' : Halfway h₀ (expiredAt HZ (readings (xs ++ [.round jiffies]))) nodes pre rest h t := by
      apply hI.congr
      intro k hk
      funext ti
      unfold expiredAt
      rw [readings_append (by omega)]
    cases rest with
    | nil =>
      obtain ⟨rfl, hend⟩ := hI'.finished hholds
      exact ⟨_, rfl, .inr ⟨_, rfl, .removed hend⟩⟩
    | cons i rest =>
      obtain rfl := hn i rest rfl
      have hbody : removeExpiredBody HZ (fun _ => jiffies) i h t =
          removeExpiredBody HZ (readings (xs ++ [.round jiffies])) i h t := by
        unfold removeExpiredBody
        rw [readings_concat hlen]
      obtain ⟨h', t', hround, hnext⟩ := hI'.round (removeExpiredBody_evicts HZ _) hholds
      obtain ⟨pre', hI''⟩ : ∃ pre',
          Halfway h₀ (expiredAt HZ (readings (xs ++ [.round jiffies]))) nodes pre' rest h' t' := by
        rcases hnext with hnext | hnext
        · exact ⟨_, hnext⟩
        · exact ⟨_, hnext⟩
      obtain ⟨n', hnext', hn'⟩ := hI''.ring.next_firstPtr
      refine ⟨(h', .removing (some (firstPtr rest, n')) t', none), ?_, .inl ⟨rfl, ?_, rfl, rfl⟩⟩
      · show ((removeExpiredBody HZ (fun _ => jiffies) i h t).bind fun r => (r.1.next (firstPtr rest)).bind fun n' =>
          some (r.1, Pc.removing (some (firstPtr rest, n')) r.2, none)) = _
        rw [hbody, hround, Option.bind_some, hnext', Option.bind_some]
      · refine ⟨?_, pre', rest, hI'', rfl, hn'⟩
        rw [List.length_append, List.length_singleton, hlen, removeExpiredBody_visited hround, List.length_append,
          List.length_singleton]

/-! ### Sections -/

theorem midway_of_enter {pc pc' : Pc ι w} {m : Mode} (henter : enterSection pc = some (m, pc')) :
    Midway HZ h nodes [] h pc' ∧ pc'.before = pc ∧ pc'.mode = some m := by
  cases pc with
  | adding pid =>
    obtain ⟨rfl, rfl⟩ := Prod.mk.inj (Option.some.inj henter)
    exact ⟨⟨rfl, rfl⟩, rfl, rfl⟩
  | linking ti =>
    obtain ⟨rfl, rfl⟩ := Prod.mk.inj (Option.some.inj henter)
    exact ⟨⟨rfl, rfl⟩, rfl, rfl⟩
  | expiring =>
    obtain ⟨rfl, rfl⟩ := Prod.mk.inj (Option.some.inj henter)
    exact ⟨⟨rfl, rfl, rfl⟩, rfl, rfl⟩
  | printing =>
    obtain ⟨rfl, rfl⟩ := Prod.mk.inj (Option.some.inj henter)
    exact ⟨⟨rfl, rfl, rfl⟩, rfl, rfl⟩
  | _ => cases henter

theorem Midway.heap_eq {pc : Pc ι w} (hmid : Midway HZ h₀ nodes xs h pc) (hpc : pc.before ≠ .expiring) : h = h₀ := by
  cases pc with
  | looking pid p => cases p <;> exact hmid.1
  | inLink ti => exact hmid.1
  | removing walk t => exact (hpc rfl).elim
  | walking p lines => cases p <;> exact hmid.1
  | _ => exact hmid.elim

theorem Midway.length_le {pc : Pc ι w} (hmid : Midway HZ h₀ nodes xs h pc) : xs.length ≤ nodes.length + 1 := by
  cases pc with
  | looking pid p =>
    cases p with
    | none => simp [hmid.2]
    | some p =>
      obtain ⟨-, pre, rest, ⟨rfl, -⟩, hlen, -⟩ := hmid
      rw [hlen, List.length_append]
      omega
  | inLink ti => simp [hmid.2]
  | removing walk t =>
    cases walk with
    | none => simp [hmid.2.1]
    | some walk =>
      obtain ⟨hlen, pre, rest, hI, -⟩ := hmid
      obtain ⟨done, todo, rfl, -, -, hvisited, -⟩ := hI.split
      rw [hlen, hvisited, List.length_map, List.length_append]
      omega
  | walking p lines =>
    cases p with
    | none => simp [hmid.2.1]
    | some p =>
      obtain ⟨-, pre, rest, ⟨rfl, -⟩, hlen, -⟩ := hmid
      rw [hlen, List.length_append]
      omega
  | _ => exact hmid.elim

theorem Midway.goes (hholds : Holds h₀ nodes) {pc : Pc ι w} (hmid : Midway HZ h₀ nodes xs h pc) {m : Mode}
    (hmode : pc.mode = some m) (hnull : pc ≠ .inLink none) {x : Input ι w} (hfits : Fits h pc x) :
    ∃ r, (program ι w HZ).round m h pc x = some r ∧ Goes HZ h₀ nodes (xs ++ [x]) pc r := by
  cases pc with
  | looking pid p =>
    obtain rfl : Mode.write = m := Option.some.inj hmode
    obtain rfl := hmid.heap_eq (by simp [Pc.before])
    cases x with
    | round jiffies => exact lookRound_goes hholds pid hmid jiffies
    | _ => exact hfits.elim
  | inLink ti =>
    obtain rfl : Mode.write = m := Option.some.inj hmode
    obtain ⟨rfl, rfl⟩ := hmid
    cases ti with
    | none => exact (hnull rfl).elim
    | some ti =>
      cases x with
      | node new garbage => exact linkRound_goes hholds ti hfits garbage
      | _ => exact hfits.elim
  | removing walk t =>
    obtain rfl : Mode.write = m := Option.some.inj hmode
    cases x with
    | round jiffies => exact removeRound_goes hholds hmid jiffies
    | _ => exact hfits.elim
  | walking p lines =>
    obtain rfl : Mode.read = m := Option.some.inj hmode
    obtain rfl := hmid.heap_eq (by simp [Pc.before])
    cases x with
    | round jiffies =>
      obtain ⟨r, hround, hgoes⟩ := printRound_goes hholds hmid (.round jiffies)
      refine ⟨(h, r), ?_, hgoes⟩
      show (printRound p lines h).map _ = _
      rw [hround]
      rfl
    | _ => exact hfits.elim
  | _ => cases hmode

theorem round_null (m : Mode) (x : Input ι w) : (program ι w HZ).round m h (.inLink none) x = none := by
  cases m <;> cases x <;> rfl

theorem fits_of_round {pc : Pc ι w} {m : Mode} (hmode : pc.mode = some m) {x : Input ι w}
    {r : Heap ι (TaskInfo w) × Pc ι w × Option (Output ι w)} (hround : (program ι w HZ).round m h pc x = some r) :
    Fits h pc x := by
  cases pc with
  | looking pid p =>
    obtain rfl : Mode.write = m := Option.some.inj hmode
    cases x with
    | round jiffies => trivial
    | _ => cases hround
  | inLink ti =>
    obtain rfl : Mode.write = m := Option.some.inj hmode
    cases x with
    | node new garbage =>
      obtain ⟨ti, rfl, hlink⟩ := Option.bind_eq_some_iff.mp hround
      obtain ⟨h₁, hmalloc, -⟩ := Option.bind_eq_some_iff.mp hlink
      unfold Heap.kmalloc at hmalloc
      split_ifs at hmalloc with hlive
      have hnone : h.get new = none := by simpa using hlive
      show (h.links (.node new)).map Links.next = none
      simp [Heap.links, hnone]
    | _ => cases hround
  | removing walk t =>
    obtain rfl : Mode.write = m := Option.some.inj hmode
    cases x with
    | round jiffies => trivial
    | _ => cases hround
  | walking p lines =>
    obtain rfl : Mode.read = m := Option.some.inj hmode
    cases x with
    | round jiffies => trivial
    | _ => cases hround
  | _ => cases hmode

theorem Midway.goes_of_round (hholds : Holds h₀ nodes) {pc : Pc ι w} (hmid : Midway HZ h₀ nodes xs h pc) {m : Mode}
    (hmode : pc.mode = some m) {x : Input ι w} {r : Heap ι (TaskInfo w) × Pc ι w × Option (Output ι w)}
    (hround : (program ι w HZ).round m h pc x = some r) : Goes HZ h₀ nodes (xs ++ [x]) pc r := by
  have hnull : pc ≠ .inLink none := by
    rintro rfl
    rw [round_null] at hround
    cases hround
  obtain ⟨r', hr', hgoes⟩ := hmid.goes hholds hmode hnull (fits_of_round hmode hround)
  obtain rfl := Option.some.inj (hround.symm.trans hr')
  exact hgoes

theorem midway_of_ongoing (hholds : Holds h₀ nodes) {pc pc₀ pc' : Pc ι w} {m : Mode}
    (henter : enterSection pc = some (m, pc₀)) (hongoing : (program ι w HZ).Ongoing m h₀ pc₀ xs h pc') :
    Midway HZ h₀ nodes xs h pc' ∧ pc'.before = pc ∧ pc'.mode = some m := by
  induction hongoing with
  | start => exact midway_of_enter henter
  | round _ hround ih =>
    obtain ⟨hmid, hbefore, hmode⟩ := ih
    rcases hmid.goes_of_round hholds hmode hround with ⟨-, hmid', hbefore', hmode'⟩ | ⟨o, ho, -⟩
    · exact ⟨hmid', hbefore'.trans hbefore, hmode'.trans hmode⟩
    · cases ho

theorem ends_of_rounds (hholds : Holds h₀ nodes) {pc pc₀ pc' : Pc ι w} {m : Mode} {o : Output ι w}
    (henter : enterSection pc = some (m, pc₀))
    (hrounds : (program ι w HZ).rounds m h₀ pc₀ xs = some (h, pc', o)) : Ends HZ h₀ nodes xs pc h pc' o := by
  obtain ⟨ys, h₁, pc₁, x, rfl, hongoing, hlast⟩ := Program.exists_ongoing hrounds
  obtain ⟨hmid, hbefore, hmode⟩ := midway_of_ongoing hholds henter hongoing
  rcases hmid.goes_of_round hholds hmode hlast with ⟨ho, -⟩ | ⟨o', ho, hends⟩
  · cases ho
  · obtain rfl := Option.some.inj ho
    rw [hbefore] at hends
    exact hends

omit [DecidableEq ι] in
theorem Ends.holds (hholds : Holds h₀ nodes) {pc pc' : Pc ι w} {o : Output ι w}
    (hends : Ends HZ h₀ nodes xs pc h pc' o) : ∃ nodes', Holds h nodes' := by
  cases hends with
  | miss => exact ⟨nodes, hholds⟩
  | hit _ _ _ hholds' => exact ⟨_, hholds'⟩
  | linked hholds' => exact ⟨_, hholds'⟩
  | removed hholds' => exact ⟨_, hholds'⟩
  | printed => exact ⟨nodes, hholds⟩

end Midway

/-! ### Runs -/

section Runs

variable [DecidableEq ι] {HZ : Nat}

theorem atomic_holds (ι : Type) [DecidableEq ι] (w HZ : Nat) :
    ((program ι w HZ).atomic (noEntries ι w)).Invariant fun c => ∃ nodes, Holds c.shared nodes where
  init := ⟨[], ⟨⟨List.nodup_nil, rfl, rfl⟩, by simp⟩⟩
  step := by
    rintro c c' e o ⟨nodes, hholds⟩ hstep
    cases e with
    | outside i x =>
      obtain ⟨pc, -, heq⟩ := Option.map_eq_some_iff.mp hstep
      obtain ⟨rfl, -⟩ := Prod.mk.inj heq
      exact ⟨nodes, hholds⟩
    | whole i xs =>
      obtain ⟨⟨m, pc₀⟩, henter, hmap⟩ := Option.bind_eq_some_iff.mp hstep
      obtain ⟨⟨h', pc', out⟩, hrounds, heq⟩ := Option.map_eq_some_iff.mp hmap
      obtain ⟨rfl, -⟩ := Prod.mk.inj heq
      exact (ends_of_rounds hholds henter hrounds).holds hholds

/-- About to link the `NULL` of a failed `kmalloc`. -/
def Pc.IsNull (pc : Pc ι w) : Prop := pc = .linking none ∨ pc = .inLink none

omit [DecidableEq ι] in
theorem isNull_of_outsideStep {pc pc' : Pc ι w} {x : Input ι w} (h : outsideStep pc x = some pc') (hnull : pc'.IsNull) :
    ∃ jiffies, x = .kmalloc false jiffies := by
  cases pc with
  | idle =>
    cases x with
    | call k => cases k <;> (obtain rfl := Option.some.inj h; simp [Pc.IsNull] at hnull)
    | _ => cases h
  | allocating pid =>
    cases x with
    | kmalloc ok jiffies =>
      obtain rfl := Option.some.inj h
      cases ok with
      | false => exact ⟨jiffies, rfl⟩
      | true => simp [Pc.IsNull, taskInfoAlloc] at hnull
    | _ => cases h
  | _ => cases x <;> cases h

omit [DecidableEq ι] in
theorem Ends.not_isNull {h₀ h : Heap ι (TaskInfo w)} {nodes : List (ι × TaskInfo w)} {xs : List (Input ι w)}
    {pc pc' : Pc ι w} {o : Output ι w} (hends : Ends HZ h₀ nodes xs pc h pc' o) : ¬ pc'.IsNull := by
  cases hends <;> simp [Pc.IsNull]

theorem atomic_isNull {cs : List (AtomicEvent (Input ι w))} {c : Threads (Heap ι (TaskInfo w)) (Pc ι w)}
    {cos : List (Option (Output ι w))} (hrun : ((program ι w HZ).atomic (noEntries ι w)).run cs = some (c, cos))
    {i : Nat} (hnull : (c.thread i).IsNull) : ∃ jiffies, .outside i (.kmalloc false jiffies) ∈ cs := by
  induction cs using List.reverseRecOn generalizing c cos with
  | nil =>
    obtain ⟨rfl, -⟩ := Prod.mk.inj (Option.some.inj hrun)
    rcases hnull with hnull | hnull <;> cases hnull
  | append_singleton cs e ih =>
    obtain ⟨c₀, cos', o, hpre, hstep, -⟩ := Machine.run_concat_eq_some _ |>.mp hrun
    -- a thread that the step does not move was there before
    have hbefore : c.thread i = c₀.thread i → ∃ jiffies, .outside i (.kmalloc false jiffies) ∈ cs ++ [e] := by
      intro hsame
      obtain ⟨jiffies, hmem⟩ := ih hpre (hsame ▸ hnull)
      exact ⟨jiffies, List.mem_append_left _ hmem⟩
    cases e with
    | outside j x =>
      obtain ⟨pc, houtside, heq⟩ := Option.map_eq_some_iff.mp hstep
      obtain ⟨rfl, -⟩ := Prod.mk.inj heq
      by_cases hij : i = j
      · subst hij
        dsimp only at hnull
        rw [Function.update_self] at hnull
        obtain ⟨jiffies, rfl⟩ := isNull_of_outsideStep houtside hnull
        exact ⟨jiffies, by simp⟩
      · exact hbefore (Function.update_of_ne hij _ _)
    | whole j xs =>
      obtain ⟨⟨m, pc₀⟩, henter, hmap⟩ := Option.bind_eq_some_iff.mp hstep
      obtain ⟨⟨h', pc', out⟩, hrounds, heq⟩ := Option.map_eq_some_iff.mp hmap
      obtain ⟨rfl, -⟩ := Prod.mk.inj heq
      by_cases hij : i = j
      · subst hij
        obtain ⟨nodes, hholds⟩ := (atomic_holds ι w HZ).run hpre
        dsimp only at hnull
        rw [Function.update_self] at hnull
        exact ((ends_of_rounds hholds henter hrounds).not_isNull hnull).elim
      · exact hbefore (Function.update_of_ne hij _ _)

theorem isNull_of_inLink {xs : Nat → List (Input ι w)} {s : Locked (Heap ι (TaskInfo w)) (Pc ι w)}
    {c : Threads (Heap ι (TaskInfo w)) (Pc ι w)} {nodes : List (ι × TaskInfo w)} (hholds : Holds c.shared nodes)
    (hfollows : Follows (program ι w HZ) xs s c) {i : Nat} (hi : s.thread i = .inLink none) :
    (c.thread i).IsNull := by
  cases hm : s.holders.modeOf i with
  | none =>
    rw [← hfollows.outside i hm, hi]
    exact .inr rfl
  | some m =>
    obtain ⟨pc₀, henter, hongoing⟩ := hfollows.inside i m hm
    obtain ⟨-, hbefore, -⟩ := midway_of_ongoing hholds henter hongoing
    rw [← hbefore, hi]
    exact .inl rfl

theorem round_step (s : Locked (Heap ι (TaskInfo w)) (Pc ι w)) (i : Nat) (x : Input ι w) :
    (threads ι w HZ).step s (.round i x) = (s.holders.modeOf i).bind fun m =>
      ((program ι w HZ).round m s.shared (s.thread i) x).map fun r => (⟨⟨r.1, Function.update s.thread i r.2.1⟩,
        if r.2.2.isSome then s.holders.give i else s.holders⟩, r.2.2) := rfl

theorem round_step_null {s : Locked (Heap ι (TaskInfo w)) (Pc ι w)} {i : Nat} (hi : s.thread i = .inLink none)
    (x : Input ι w) : (threads ι w HZ).step s (.round i x) = none := by
  rw [round_step, hi]
  cases s.holders.modeOf i with
  | none => rfl
  | some m =>
    rw [Option.bind_some, round_null]
    rfl

/-- In every interleaving of the calls, the nodes form a ring whenever nobody writes, and a thread in a section whose
`kmalloc` has not failed can make its next round: it never meets a freed node or the poison of a deleted one. The
section that links an entry needs one, at an address that is not in use; with the `NULL` of a failed `kmalloc` it has
no round to make, and no other thread is ever there. -/
theorem locked_never_faults {es : List (LockedEvent (Input ι w))}
    {s : Locked (Heap ι (TaskInfo w)) (Pc ι w)} {os : List (Option (Output ι w))}
    (hrun : (threads ι w HZ).run es = some (s, os)) :
    (s.holders.writer = none → ∃ nodes, Holds s.shared nodes) ∧
    (∀ i m x, s.holders.modeOf i = some m → s.thread i ≠ .inLink none → Fits s.shared (s.thread i) x →
      ((threads ι w HZ).step s (.round i x)).isSome) ∧
    (∀ i x, s.thread i = .inLink none → (threads ι w HZ).step s (.round i x) = none) ∧
    ∀ i, (∀ jiffies, .outside i (.kmalloc false jiffies) ∉ es) → s.thread i ≠ .inLink none := by
  obtain ⟨c, hatomic, hfollows, -⟩ := run_atomic hrun
  obtain ⟨nodes, hholds⟩ := (atomic_holds ι w HZ).run hatomic
  refine ⟨?_, ?_, ?_, ?_⟩
  · intro hfree
    rw [hfollows.shared hfree]
    exact ⟨nodes, hholds⟩
  · intro i m x hi hnull hfits
    obtain ⟨pc₀, henter, hongoing⟩ := hfollows.inside i m hi
    obtain ⟨hmid, -, hmode⟩ := midway_of_ongoing hholds henter hongoing
    obtain ⟨r, hround, -⟩ := hmid.goes hholds hmode hnull hfits
    rw [round_step, hi, Option.bind_some, hround]
    rfl
  · intro i x hi
    exact round_step_null hi x
  · intro i hnever hi
    obtain ⟨jiffies, hmem⟩ := atomic_isNull hatomic (isNull_of_inLink hholds hfollows hi)
    obtain ⟨⟨e, o⟩, hmem, rfl⟩ := List.mem_map.mp hmem
    exact hnever jiffies (outside_mem_of_record ((threads ι w HZ).length_of_runFrom hrun) hmem)

/-- A thread adds an entry, and two others begin to print the list. -/
def twoPrint : List (LockedEvent (Input Nat 64)) :=
  [.outside 0 (.call (.addToList 7)), .enter 0, .round 0 (.round 5), .round 0 (.round 5),
    .outside 0 (.kmalloc true 6), .enter 0, .round 0 (.node 3 ⟨.poison1, .poison2⟩),
    .outside 1 (.call .printList), .outside 2 (.call .printList), .enter 1, .enter 2, .round 1 (.round 8)]

/-- The first of them is at the entry, and gets past it. -/
theorem locked_never_faults_twoPrint :
    ∃ s os, (threads Nat 64 250).run twoPrint = some (s, os) ∧
      ((threads Nat 64 250).step s (.round 1 (.round 9))).isSome := by
  refine ⟨_, _, rfl, ?_⟩
  refine (@locked_never_faults Nat 64 _ 250 twoPrint _ _ rfl).2.1 1 .read (.round 9) rfl ?_ trivial
  intro h
  cases h

end Runs

end OnHeap

end DeviceDrivers.ListSync
