import DeviceDrivers.Kernel
import DeviceDrivers.Lib.Machine

/-!
# The list of `list-full` and what the heap held before

`KernelModules/kernel-Lists-full-mod/list-full.c`. `alloc_task_info` increments `cnt` in memory that
`kmalloc` does not clear: an entry starts with whatever was there, plus one, and one that starts at `5` or
more never expires. Two runs that differ in nothing but this memory agree, with entries that start at `1`
and expire, exactly when the memory was zero at every allocation (`garbage_iff`).
-/

namespace DeviceDrivers.ListFull

variable {w : Nat}

/-- `struct taskInfo` without its `list_head`. -/
structure TaskInfo (w : Nat) where
  pid : Int
  cnt : BitVec 32
  timestamp : BitVec w
  deriving DecidableEq

/-- `alloc_task_info`; `kmalloc` is `NULL`, or what the new memory holds in the place of `cnt`. -/
def allocTaskInfo (pid : Int) (kmalloc : Option (BitVec 32)) (jiffies : BitVec w) : Option (TaskInfo w) :=
  kmalloc.map fun garbage => ⟨pid, garbage + 1, jiffies⟩

/-- `task_info_add_for_current` -/
def taskInfoAddForCurrent (pid : Int) (kmalloc : Option (BitVec 32)) (jiffies : BitVec w)
    (head : List (TaskInfo w)) : List (TaskInfo w) :=
  match allocTaskInfo pid kmalloc jiffies with
  | none => head
  | some tsk => tsk :: head

/-- The test of `task_info_remove_expired`. -/
def TaskInfo.expired (HZ : Nat) (pid : Int) (jiffies : BitVec w) (tsk : TaskInfo w) : Bool :=
  tsk.pid = pid && tsk.cnt.toInt < 5 && BitVec.ofNat w (3 * HZ) < jiffies - tsk.timestamp

/-- The entries that the walk keeps from the `i`-th visit on; `jiffies i` is what this visit reads. -/
def removeExpiredFrom (HZ : Nat) (pid : Int) (jiffies : Nat → BitVec w) :
    Nat → List (TaskInfo w) → List (TaskInfo w)
  | _, [] => []
  | i, tsk :: rest =>
    if tsk.expired HZ pid (jiffies i) then removeExpiredFrom HZ pid jiffies (i + 1) rest
    else tsk :: removeExpiredFrom HZ pid jiffies (i + 1) rest

/-- `task_info_remove_expired` -/
def taskInfoRemoveExpired (HZ : Nat) (pid : Int) (jiffies : Nat → BitVec w) (head : List (TaskInfo w)) :
    List (TaskInfo w) :=
  removeExpiredFrom HZ pid jiffies 0 head

inductive Call (w : Nat)
  | add (pid : Int) (kmalloc : Option (BitVec 32)) (jiffies : BitVec w)
  | removeExpired (pid : Int) (jiffies : Nat → BitVec w)

def callStep (HZ : Nat) (head : List (TaskInfo w)) : Call w → List (TaskInfo w)
  | .add pid kmalloc jiffies => taskInfoAddForCurrent pid kmalloc jiffies head
  | .removeExpired pid jiffies => taskInfoRemoveExpired HZ pid jiffies head

def listFull (w HZ : Nat) : Machine (List (TaskInfo w)) (Call w) Unit :=
  ⟨[], fun head e => some (callStep HZ head e, ())⟩

/-- A call of two runs: it has the same arguments, times and outcome of `kmalloc` in both, but the new
memory may hold something else. -/
inductive TwinCall (w : Nat)
  | add (pid : Int) (kmalloc : Option (BitVec 32 × BitVec 32)) (jiffies : BitVec w)
  | removeExpired (pid : Int) (jiffies : Nat → BitVec w)

def TwinCall.left : TwinCall w → Call w
  | .add pid kmalloc jiffies => .add pid (kmalloc.map Prod.fst) jiffies
  | .removeExpired pid jiffies => .removeExpired pid jiffies

def TwinCall.right : TwinCall w → Call w
  | .add pid kmalloc jiffies => .add pid (kmalloc.map Prod.snd) jiffies
  | .removeExpired pid jiffies => .removeExpired pid jiffies

/-- The memory that the call gets is zero in both runs. -/
def TwinCall.Zeroed : TwinCall w → Prop
  | .add _ (some garbage) _ => garbage = (0, 0)
  | _ => True

/-- An entry is evicted by a `task_info_remove_expired` of its pid whose visit finds it more than `3 * HZ`
jiffies old. -/
def EvictsAged (HZ : Nat) (head : List (TaskInfo w)) : Prop :=
  ∀ pre tsk rest (jiffies : Nat → BitVec w), head = pre ++ tsk :: rest →
    BitVec.ofNat w (3 * HZ) < jiffies pre.length - tsk.timestamp →
    taskInfoRemoveExpired HZ tsk.pid jiffies head =
      removeExpiredFrom HZ tsk.pid jiffies 0 pre ++
        removeExpiredFrom HZ tsk.pid jiffies (pre.length + 1) rest

/-- The lists of the two runs are the same; all entries have `cnt = 1`, and expire. -/
structure Agree (HZ : Nat) (s : List (TaskInfo w) × List (TaskInfo w)) : Prop where
  same : s.1 = s.2
  one : ∀ tsk ∈ s.1, tsk.cnt = 1
  expires : EvictsAged HZ s.1

theorem removeExpiredFrom_append (HZ : Nat) (pid : Int) (jiffies : Nat → BitVec w) (i : Nat)
    (pre rest : List (TaskInfo w)) :
    removeExpiredFrom HZ pid jiffies i (pre ++ rest) =
      removeExpiredFrom HZ pid jiffies i pre ++ removeExpiredFrom HZ pid jiffies (i + pre.length) rest := by
  induction pre generalizing i with
  | nil => rfl
  | cons tsk pre ih =>
    have harith : i + (pre.length + 1) = i + 1 + pre.length := by omega
    rw [List.cons_append, List.length_cons, removeExpiredFrom, removeExpiredFrom, ih (i + 1), harith]
    split_ifs
    · rfl
    · rfl

theorem removeExpiredFrom_sublist (HZ : Nat) (pid : Int) (jiffies : Nat → BitVec w) (i : Nat)
    (head : List (TaskInfo w)) : (removeExpiredFrom HZ pid jiffies i head).Sublist head := by
  induction head generalizing i with
  | nil => exact List.Sublist.slnil
  | cons tsk rest ih =>
    rw [removeExpiredFrom]
    split_ifs
    · exact (ih (i + 1)).cons tsk
    · exact (ih (i + 1)).cons_cons tsk

theorem evictsAged_of_one (HZ : Nat) {head : List (TaskInfo w)} (hone : ∀ tsk ∈ head, tsk.cnt = 1) :
    EvictsAged HZ head := by
  intro pre tsk rest jiffies hhead haged
  have hcnt : tsk.cnt = 1 := hone tsk (by simp [hhead])
  have hexpired : tsk.expired HZ tsk.pid (jiffies pre.length) = true := by
    simp [TaskInfo.expired, hcnt, haged]
  unfold taskInfoRemoveExpired
  rw [hhead, removeExpiredFrom_append, Nat.zero_add, removeExpiredFrom, if_pos hexpired]

theorem agree_iff (HZ : Nat) (s : List (TaskInfo w) × List (TaskInfo w)) :
    Agree HZ s ↔ s.1 = s.2 ∧ ∀ tsk ∈ s.1, tsk.cnt = 1 := by
  constructor
  · intro h
    exact ⟨h.same, h.one⟩
  · rintro ⟨hsame, hone⟩
    exact ⟨hsame, hone, evictsAged_of_one HZ hone⟩

theorem add_one_eq_one (garbage : BitVec 32) : garbage + 1 = 1 ↔ garbage = 0 := by
  constructor
  · intro h
    bv_omega
  · rintro rfl
    rfl

theorem agree_step {HZ : Nat} {s t : List (TaskInfo w) × List (TaskInfo w)} {e : TwinCall w}
    {o : Unit × Unit} (hs : Agree HZ s)
    (hstep : ((listFull w HZ).twin TwinCall.left TwinCall.right).step s e = some (t, o)) :
    Agree HZ t ↔ e.Zeroed := by
  obtain ⟨hleft, hright⟩ := Machine.twin_step.mp hstep
  have ht₁ : callStep HZ s.1 e.left = t.1 := (Prod.mk.inj (Option.some.inj hleft)).1
  have ht₂ : callStep HZ s.2 e.right = t.2 := (Prod.mk.inj (Option.some.inj hright)).1
  rw [agree_iff, ← ht₁, ← ht₂, ← hs.same]
  cases e with
  | removeExpired pid jiffies =>
    refine iff_of_true ⟨rfl, ?_⟩ trivial
    intro tsk htsk
    exact hs.one tsk ((removeExpiredFrom_sublist HZ pid jiffies 0 s.1).subset htsk)
  | add pid kmalloc jiffies =>
    cases kmalloc with
    | none => exact iff_of_true ⟨rfl, hs.one⟩ trivial
    | some garbage =>
      show ((⟨pid, garbage.1 + 1, jiffies⟩ : TaskInfo w) :: s.1 = ⟨pid, garbage.2 + 1, jiffies⟩ :: s.1 ∧
        ∀ tsk ∈ (⟨pid, garbage.1 + 1, jiffies⟩ : TaskInfo w) :: s.1, tsk.cnt = 1) ↔ garbage = (0, 0)
      rw [List.forall_mem_cons]
      constructor
      · rintro ⟨hsame, hone, -⟩
        obtain ⟨hhead, -⟩ := List.cons.inj hsame
        injection hhead with _ hcnt
        apply Prod.ext
        · exact (add_one_eq_one _).mp hone
        · exact (add_one_eq_one _).mp (hcnt.symm.trans hone)
      · rintro rfl
        exact ⟨rfl, rfl, hs.one⟩

/-- Two runs with the same calls have the same lists after every call, with entries that start at `1` and
expire, exactly when every allocation gets zeroed memory in both. -/
theorem garbage_iff (HZ : Nat) (es : List (TwinCall w)) :
    ((listFull w HZ).twin TwinCall.left TwinCall.right).Always (Agree HZ) es ↔ ∀ e ∈ es, e.Zeroed := by
  obtain ⟨s, os, hleft⟩ := (listFull w HZ).exists_run (fun _ _ => rfl) (es.map TwinCall.left)
  obtain ⟨t, os', hright⟩ := (listFull w HZ).exists_run (fun _ _ => rfl) (es.map TwinCall.right)
  have hrun := Machine.run_twin hleft hright
  rw [← Machine.everyStep_iff_forall hrun]
  refine Machine.always_iff_everyStep (Machine.invariant_true _) ?_ (fun _ => agree_step) hrun
  rw [agree_iff]
  exact ⟨rfl, by simp [Machine.twin, listFull]⟩

/-- One entry, on memory that is zero in one run and holds `4` in the other. -/
def oneEntry : List (TwinCall 64) := [.add 7 (some (0, 4)) 100]

/-- Its `cnt` is `1` in one run and `5` in the other, where it never expires. -/
theorem lists_differ : ¬ ((listFull 64 250).twin TwinCall.left TwinCall.right).Always (Agree 250) oneEntry := by
  intro h
  have hlast := h _ _ [((), ())] (List.prefix_refl _) rfl
  exact absurd hlast.same (by decide)

end DeviceDrivers.ListFull
