import DeviceDrivers.Lib.Sweep
import DeviceDrivers.Timer.Device

/-!
# The monitored processes of the timer driver on their nodes

`Drivers/deferredTimer/kernel/timer.c` once more, with `dev->list` as the ring of `struct monitor_process` that it is:
`get_proc` allocates a node, the ioctl links it, the handler and `deferred_exit` unlink and free nodes while they walk.
Whenever the driver on lists can make a step, so can this one; it never follows a pointer to a node that is not there,
shows the same, and has no node left once it is unloaded (`timer_on_heap`).
-/

namespace DeviceDrivers.Timer

open ListHead

namespace OnHeap

variable {ι : Type}

/-- The driver with the nodes of its list. -/
structure HeapSys (ι : Type) where
  timer : Option (BitVec 64)
  workQueue : Bool
  list : Heap ι MonitorProcess
  flag : TimerType
  tasks : Tasks
  loaded : Bool

/-- What a call of `timer_ioctl` finds; `kmalloc` is `NULL`, or an address and what the links there hold. -/
structure HeapEnv (ι : Type) where
  jiffies : BitVec 64
  pidTask : Int → Option Nat
  kmalloc : Option (ι × Links ι)

inductive HeapEvent (ι : Type)
  | ioctl (cmd : BitVec 32) (arg : BitVec 64) (env : HeapEnv ι)
  | expire
  | work
  | death (task : Nat)
  | exit

section Code

variable [DecidableEq ι]

/-- `get_proc`: the error of an `ERR_PTR`, or the new node. -/
def getProc (env : HeapEnv ι) (pid : Int) (h : Heap ι MonitorProcess) (k : Tasks) :
    Option (Except Int (ι × Heap ι MonitorProcess × Tasks)) :=
  match env.pidTask pid with
  | none => some (.error (-ESRCH))
  | some task =>
    match env.kmalloc with
    | none => some (.error (-ENOMEM))
    | some m => (h.kmalloc m.1 m.2 ⟨k.requests, task⟩).map fun h =>
      .ok (m.1, h, { k.getTaskStruct task with requests := k.requests + 1 })

/-- `timer_ioctl` -/
def timerIoctl (HZ : Nat) (cmd : BitVec 32) (arg : BitVec 64) (env : HeapEnv ι) (s : HeapSys ι) :
    Option (HeapSys ι × Int) :=
  if cmd = MY_IOCTL_TIMER_SET then
    some ({ s with flag := .set, timer := some (env.jiffies + arg * BitVec.ofNat 64 HZ) }, 0)
  else if cmd = MY_IOCTL_TIMER_CANCEL then some ({ s with timer := none }, 0)
  else if cmd = MY_IOCTL_TIMER_ALLOC then
    some ({ s with flag := .alloc, timer := some (env.jiffies + arg * BitVec.ofNat 64 HZ) }, 0)
  else if cmd = MY_IOCTL_TIMER_MONITOR then do
    match ← getProc env (pidArg arg) s.list s.tasks with
    | .error err => some (s, err)
    | .ok (p, h, tasks) =>
      let h ← h.listAdd p
      some ({ s with
        list := h, tasks := tasks, flag := .monitor, timer := some (env.jiffies + BitVec.ofNat 64 HZ) }, 0)
  else some (s, 0)

/-- The loop of `timer_handler`. -/
def scanBody (p : ι) (h : Heap ι MonitorProcess) (k : Tasks) : Option (Heap ι MonitorProcess × Tasks) := do
  let process ← h.payload p
  if k.dead process.task then
    let k := { k with reports := k.reports ++ [process] }.putTaskStruct process.task
    let h ← h.discard p
    some (h, k)
  else some (h, k)

/-- `timer_handler` -/
def timerHandler (fuel : Nat) (s : HeapSys ι) : Option (HeapSys ι × Branch) :=
  match s.flag with
  | .set => some (s, .nothing)
  | .alloc => some ({ s with workQueue := true }, .scheduleWork)
  | .monitor => (listForEachSafe scanBody fuel s.list s.tasks).map fun r =>
    ({ s with list := r.1, tasks := r.2 }, .scan)
  | .none => some (s, .nothing)

/-- The loop of `deferred_exit`. -/
def releaseBody (p : ι) (h : Heap ι MonitorProcess) (k : Tasks) : Option (Heap ι MonitorProcess × Tasks) := do
  let process ← h.payload p
  let k := k.putTaskStruct process.task
  let h ← h.discard p
  some (h, k)

/-- `deferred_exit` -/
def deferredExit (fuel : Nat) (s : HeapSys ι) : Option (HeapSys ι) :=
  (listForEachSafe releaseBody fuel s.list s.tasks).map fun r =>
    { s with timer := none, workQueue := false, list := r.1, tasks := r.2, loaded := false }

def heapStep (HZ fuel : Nat) (s : HeapSys ι) : HeapEvent ι → Option (HeapSys ι × TimerOutput)
  | .ioctl cmd arg env =>
    if s.loaded then (timerIoctl HZ cmd arg env s).map fun r => (r.1, .returned r.2) else none
  | .expire =>
    if s.timer.isSome then (timerHandler fuel { s with timer := none }).map fun r => (r.1, .ran r.2) else none
  | .work => if s.workQueue then some ({ s with workQueue := false }, .silent) else none
  | .death task => some ({ s with tasks.dead := fun t => t = task || s.tasks.dead t }, .silent)
  | .exit => if s.loaded then (deferredExit fuel s).map fun s => (s, .silent) else none

/-- `deferred_init`, with these tasks dead. -/
def heapInit (ι : Type) (dead : Nat → Bool) : HeapSys ι :=
  ⟨none, false, ⟨⟨.head, .head⟩, fun _ => none⟩, .none, ⟨dead, fun _ => 0, 0, []⟩, true⟩

def timerOnHeap (ι : Type) [DecidableEq ι] (HZ fuel : Nat) (dead : Nat → Bool) :
    Machine (HeapSys ι) (HeapEvent ι) TimerOutput :=
  ⟨heapInit ι dead, heapStep HZ fuel⟩

end Code

/-! ### The list that the nodes stand for -/

def HeapEnv.onList (env : HeapEnv ι) : IoctlEnv := ⟨env.jiffies, env.pidTask, env.kmalloc.isSome⟩

def HeapEvent.onList : HeapEvent ι → TimerEvent
  | .ioctl cmd arg env => .ioctl cmd arg env.onList
  | .expire => .expire
  | .work => .work
  | .death task => .death task
  | .exit => .exit

/-- `kmalloc` returns memory that is not in use. -/
def HeapEvent.Fresh (s : HeapSys ι) : HeapEvent ι → Prop
  | .ioctl _ _ env => ∀ m, env.kmalloc = some m → s.list.payload m.1 = none
  | _ => True

/-- The driver on lists, with `l` for the list. -/
def HeapSys.withList (s : HeapSys ι) (l : List MonitorProcess) : Sys :=
  ⟨⟨s.timer, s.workQueue, l, s.flag⟩, s.tasks, s.loaded⟩

/-- The nodes of the ring are the entries of the list. -/
structure Shows (t : HeapSys ι) (nodes : List (ι × MonitorProcess)) (s : Sys) : Prop where
  stores : Stores t.list nodes
  same : s = t.withList (nodes.map Prod.snd)

/-! ### The loops -/

section Loops

/-- What the loop of `timer_handler` does at a process, apart from the list. -/
def scanVisit (k : Tasks) (process : MonitorProcess) : Tasks :=
  if k.dead process.task then { k with reports := k.reports ++ [process] }.putTaskStruct process.task else k

theorem scanList_sweep (nodes : List (ι × MonitorProcess)) (k : Tasks) :
    scanList (nodes.map Prod.snd) k =
      ((sweep (fun k process => k.dead process.task) scanVisit k nodes).map Prod.snd,
        nodes.foldl (fun k x => scanVisit k x.2) k) := by
  induction nodes generalizing k with
  | nil => rfl
  | cons x nodes ih =>
    rw [List.map_cons, scanList, sweep, List.foldl_cons]
    by_cases hdead : k.dead x.2.task = true
    · have hvisit : scanVisit k x.2 = { k with reports := k.reports ++ [x.2] }.putTaskStruct x.2.task := if_pos hdead
      rw [if_pos hdead, if_pos hdead, hvisit, ih]
    · have hvisit : scanVisit k x.2 = k := if_neg hdead
      rw [if_neg hdead, if_neg hdead, hvisit, ih]
      rfl

theorem releaseList_foldl (nodes : List (ι × MonitorProcess)) (k : Tasks) :
    releaseList (nodes.map Prod.snd) k = nodes.foldl (fun k x => k.putTaskStruct x.2.task) k := by
  induction nodes generalizing k with
  | nil => rfl
  | cons x nodes ih => exact ih (k.putTaskStruct x.2.task)

variable [DecidableEq ι]

theorem scanBody_sweeps : Sweeps (fun k process => k.dead process.task) scanVisit (scanBody (ι := ι)) := by
  intro p h k process hp
  unfold scanBody scanVisit
  rw [hp]
  by_cases hdead : k.dead process.task = true
  · simp only [Option.bind_eq_bind, Option.bind_some, if_pos hdead]
    cases h.discard p with
    | none => rfl
    | some h' => rfl
  · simp only [Option.bind_eq_bind, Option.bind_some, if_neg hdead]

theorem releaseBody_sweeps :
    Sweeps (fun _ _ => true) (fun k process => k.putTaskStruct process.task) (releaseBody (ι := ι)) := by
  intro p h k process hp
  unfold releaseBody
  rw [hp]
  simp only [Option.bind_eq_bind, Option.bind_some, if_true]
  cases h.discard p with
  | none => rfl
  | some h' => rfl

end Loops

/-! ### One step -/

section Step

variable [DecidableEq ι] {HZ fuel : Nat} {t : HeapSys ι} {nodes : List (ι × MonitorProcess)} {s : Sys}

theorem timerIoctl_monitor_error {arg : BitVec 64} {env : HeapEnv ι} {err : Int}
    (h : getProc env (pidArg arg) t.list t.tasks = some (.error err)) :
    timerIoctl HZ MY_IOCTL_TIMER_MONITOR arg env t = some (t, err) := by
  show (getProc env (pidArg arg) t.list t.tasks).bind _ = _
  rw [h]
  rfl

theorem timerIoctl_monitor_ok {arg : BitVec 64} {env : HeapEnv ι} {p : ι} {h₁ h₂ : Heap ι MonitorProcess} {k : Tasks}
    (h : getProc env (pidArg arg) t.list t.tasks = some (.ok (p, h₁, k))) (hadd : h₁.listAdd p = some h₂) :
    timerIoctl HZ MY_IOCTL_TIMER_MONITOR arg env t = some ({ t with
      list := h₂, tasks := k, flag := .monitor, timer := some (env.jiffies + BitVec.ofNat 64 HZ) }, 0) := by
  show (getProc env (pidArg arg) t.list t.tasks).bind _ = _
  rw [h]
  show (h₁.listAdd p).bind _ = _
  rw [hadd]
  rfl

theorem monitor_shows (h : Shows t nodes s) (arg : BitVec 64) {env : HeapEnv ι}
    (hfresh : ∀ m, env.kmalloc = some m → t.list.payload m.1 = none) :
    ∃ t' nodes', timerIoctl HZ MY_IOCTL_TIMER_MONITOR arg env t =
        some (t', (Timer.timerIoctl HZ MY_IOCTL_TIMER_MONITOR arg env.onList s).2) ∧
      Shows t' nodes' (Timer.timerIoctl HZ MY_IOCTL_TIMER_MONITOR arg env.onList s).1 ∧
      nodes'.length ≤ nodes.length + 1 := by
  obtain ⟨hs, rfl⟩ := h
  cases htask : env.pidTask (pidArg arg) with
  | none =>
    have hheap : getProc env (pidArg arg) t.list t.tasks = some (.error (-ESRCH)) := by
      simp only [getProc, htask]
    have hlist : Timer.getProc env.onList (pidArg arg) t.tasks = .error (-ESRCH) := by
      simp only [Timer.getProc, HeapEnv.onList, htask]
    rw [timerIoctl_monitor_error hheap, timerIoctl_of_getProc_error hlist]
    exact ⟨t, nodes, rfl, ⟨hs, rfl⟩, Nat.le_succ _⟩
  | some task =>
    cases hkmalloc : env.kmalloc with
    | none =>
      have hheap : getProc env (pidArg arg) t.list t.tasks = some (.error (-ENOMEM)) := by
        simp only [getProc, htask, hkmalloc]
      have hlist : Timer.getProc env.onList (pidArg arg) t.tasks = .error (-ENOMEM) := by
        simp [Timer.getProc, HeapEnv.onList, htask, hkmalloc]
      rw [timerIoctl_monitor_error hheap, timerIoctl_of_getProc_error hlist]
      exact ⟨t, nodes, rfl, ⟨hs, rfl⟩, Nat.le_succ _⟩
    | some m =>
      obtain ⟨h₁, h₂, hmalloc, hadd, hs₂⟩ := hs.push (hfresh m hkmalloc) m.2 ⟨t.tasks.requests, task⟩
      have hheap : getProc env (pidArg arg) t.list t.tasks = some (.ok (m.1, h₁,
          { t.tasks.getTaskStruct task with requests := t.tasks.requests + 1 })) := by
        simp only [getProc, htask, hkmalloc, hmalloc, Option.map_some]
      have hlist : Timer.getProc env.onList (pidArg arg) t.tasks = .ok (⟨t.tasks.requests, task⟩,
          { t.tasks.getTaskStruct task with requests := t.tasks.requests + 1 }) := by
        simp [Timer.getProc, HeapEnv.onList, htask, hkmalloc]
      rw [timerIoctl_monitor_ok hheap hadd, timerIoctl_of_getProc_ok hlist]
      exact ⟨_, _, rfl, ⟨hs₂, rfl⟩, Nat.le_refl _⟩

theorem timerIoctl_shows (h : Shows t nodes s) (cmd : BitVec 32) (arg : BitVec 64) {env : HeapEnv ι}
    (hfresh : ∀ m, env.kmalloc = some m → t.list.payload m.1 = none) :
    ∃ t' nodes', timerIoctl HZ cmd arg env t = some (t', (Timer.timerIoctl HZ cmd arg env.onList s).2) ∧
      Shows t' nodes' (Timer.timerIoctl HZ cmd arg env.onList s).1 ∧ nodes'.length ≤ nodes.length + 1 := by
  by_cases hmonitor : cmd = MY_IOCTL_TIMER_MONITOR
  · subst hmonitor
    exact monitor_shows h arg hfresh
  obtain ⟨hs, rfl⟩ := h
  unfold timerIoctl Timer.timerIoctl ioctlRequest
  by_cases hset : cmd = MY_IOCTL_TIMER_SET
  · simp only [if_pos hset]
    exact ⟨_, nodes, rfl, ⟨hs, rfl⟩, Nat.le_succ _⟩
  by_cases hcancel : cmd = MY_IOCTL_TIMER_CANCEL
  · simp only [if_neg hset, if_pos hcancel]
    exact ⟨_, nodes, rfl, ⟨hs, rfl⟩, Nat.le_succ _⟩
  by_cases halloc : cmd = MY_IOCTL_TIMER_ALLOC
  · simp only [if_neg hset, if_neg hcancel, if_pos halloc]
    exact ⟨_, nodes, rfl, ⟨hs, rfl⟩, Nat.le_succ _⟩
  · simp only [if_neg hset, if_neg hcancel, if_neg halloc, if_neg hmonitor]
    exact ⟨_, nodes, rfl, ⟨hs, rfl⟩, Nat.le_succ _⟩

theorem timerHandler_shows (h : Shows t nodes s) (hfuel : nodes.length < fuel) :
    ∃ t' nodes', timerHandler fuel t = some (t', (Timer.timerHandler s).2) ∧
      Shows t' nodes' (Timer.timerHandler s).1 ∧ nodes'.length ≤ nodes.length := by
  obtain ⟨hs, rfl⟩ := h
  obtain ⟨expires, workQueue, list, flag, tasks, loaded⟩ := t
  cases flag with
  | set => exact ⟨_, nodes, rfl, ⟨hs, rfl⟩, Nat.le_refl _⟩
  | alloc => exact ⟨⟨expires, true, list, .alloc, tasks, loaded⟩, nodes, rfl, ⟨hs, rfl⟩, Nat.le_refl _⟩
  | none => exact ⟨_, nodes, rfl, ⟨hs, rfl⟩, Nat.le_refl _⟩
  | monitor =>
    obtain ⟨h', hloop, hs'⟩ := hs.sweep scanBody_sweeps hfuel tasks
    have hscan := scanList_sweep nodes tasks
    refine ⟨⟨expires, workQueue, h', .monitor, nodes.foldl (fun k x => scanVisit k x.2) tasks, loaded⟩,
      sweep (fun k process => k.dead process.task) scanVisit tasks nodes, ?_, ⟨hs', ?_⟩, sweep_length_le _ _ _ _⟩
    · show (listForEachSafe scanBody fuel list tasks).map _ = _
      rw [hloop]
      rfl
    · show (⟨⟨expires, workQueue, (scanList (nodes.map Prod.snd) tasks).1, .monitor⟩,
        (scanList (nodes.map Prod.snd) tasks).2, loaded⟩ : Sys) = _
      rw [hscan]
      rfl

theorem deferredExit_shows (h : Shows t nodes s) (hfuel : nodes.length < fuel) :
    ∃ t', deferredExit fuel t = some t' ∧ Shows t' [] (Timer.deferredExit s) := by
  obtain ⟨hs, rfl⟩ := h
  obtain ⟨h', hloop, hs'⟩ := hs.sweep releaseBody_sweeps hfuel t.tasks
  rw [sweep_all] at hs'
  refine ⟨⟨none, false, h', t.flag, nodes.foldl (fun k x => k.putTaskStruct x.2.task) t.tasks, false⟩, ?_, ⟨hs', ?_⟩⟩
  · show (listForEachSafe releaseBody fuel t.list t.tasks).map _ = _
    rw [hloop]
    rfl
  · rw [← releaseList_foldl]
    rfl

/-- Whenever the driver on lists can make a step, so can the one with the nodes. -/
theorem heapStep_shows (h : Shows t nodes s) (hfuel : nodes.length < fuel) {e : HeapEvent ι} (hfresh : e.Fresh t)
    {s' : Sys} {o : TimerOutput} (hstep : timerStep HZ s e.onList = some (s', o)) :
    ∃ t' nodes', heapStep HZ fuel t e = some (t', o) ∧ Shows t' nodes' s' ∧ nodes'.length ≤ nodes.length + 1 := by
  have hsame := h.same
  cases e with
  | ioctl cmd arg env =>
    obtain ⟨t', nodes', hioctl, hshows, hlen⟩ := @timerIoctl_shows ι _ HZ t nodes s h cmd arg env hfresh
    have hloaded : s.loaded = t.loaded := by rw [hsame]; rfl
    simp only [HeapEvent.onList, timerStep, hloaded] at hstep
    split_ifs at hstep with hl
    obtain ⟨rfl, rfl⟩ := Prod.mk.inj (Option.some.inj hstep)
    refine ⟨t', nodes', ?_, hshows, hlen⟩
    simp only [heapStep, if_pos hl, hioctl, Option.map_some]
  | expire =>
    have htimer : s.dev.timer = t.timer := by rw [hsame]; rfl
    simp only [HeapEvent.onList, timerStep, htimer] at hstep
    split_ifs at hstep with ht
    obtain ⟨rfl, rfl⟩ := Prod.mk.inj (Option.some.inj hstep)
    have hpending : Shows { t with timer := none } nodes { s with dev.timer := none } := ⟨h.stores, by rw [hsame]; rfl⟩
    obtain ⟨t', nodes', hhandler, hshows, hlen⟩ := timerHandler_shows hpending hfuel
    refine ⟨t', nodes', ?_, hshows, hlen.trans (Nat.le_succ _)⟩
    simp only [heapStep, if_pos ht, hhandler, Option.map_some]
    rfl
  | work =>
    have hqueue : s.dev.workQueue = t.workQueue := by rw [hsame]; rfl
    simp only [HeapEvent.onList, timerStep, hqueue] at hstep
    split_ifs at hstep with hq
    obtain ⟨rfl, rfl⟩ := Prod.mk.inj (Option.some.inj hstep)
    exact ⟨{ t with workQueue := false }, nodes, if_pos hq, ⟨h.stores, by rw [hsame]; rfl⟩, Nat.le_succ _⟩
  | death task =>
    obtain ⟨rfl, rfl⟩ := Prod.mk.inj (Option.some.inj hstep)
    exact ⟨_, nodes, rfl, ⟨h.stores, by rw [hsame]; rfl⟩, Nat.le_succ _⟩
  | exit =>
    have hloaded : s.loaded = t.loaded := by rw [hsame]; rfl
    simp only [HeapEvent.onList, timerStep, hloaded] at hstep
    split_ifs at hstep with hl
    obtain ⟨rfl, rfl⟩ := Prod.mk.inj (Option.some.inj hstep)
    obtain ⟨t', hexit, hshows⟩ := deferredExit_shows h hfuel
    refine ⟨t', [], ?_, hshows, Nat.zero_le _⟩
    simp only [heapStep, if_pos hl, hexit, Option.map_some]

end Step

/-! ### Runs -/

theorem unloaded_list (HZ : Nat) (dead : Nat → Bool) :
    (timer HZ dead).Invariant fun s => s.loaded = false → s.dev.list = [] ∧ s.dev.timer = none where
  init := by
    intro h
    cases h
  step := by
    intro s s' e o hs hstep hunloaded
    rcases timerStep_cases hstep with ⟨cmd, arg, env, rfl, hloaded, rfl, -⟩ | ⟨rfl, hpending, rfl, -⟩ |
      ⟨rfl, hqueued, rfl, -⟩ | ⟨task, rfl, rfl, -⟩ | ⟨rfl, hloaded, rfl, -⟩
    · have hkept := loaded_of_step (show timerStep HZ s (.ioctl cmd arg env) = _ from hstep) (by simp)
      rw [hkept, hloaded] at hunloaded
      cases hunloaded
    · have hkept := loaded_of_step (show timerStep HZ s .expire = _ from hstep) (by simp)
      rw [hkept] at hunloaded
      rw [(hs hunloaded).2] at hpending
      cases hpending
    · exact hs hunloaded
    · exact hs hunloaded
    · exact ⟨rfl, rfl⟩

theorem run_shows [DecidableEq ι] {HZ fuel : Nat} {dead : Nat → Bool} {es : List (HeapEvent ι)} {s : Sys}
    {os : List TimerOutput} (hrun : (timer HZ dead).run (es.map HeapEvent.onList) = some (s, os))
    (hfuel : es.length < fuel) (hfresh : (timerOnHeap ι HZ fuel dead).EveryStep (fun t e => e.Fresh t) es) :
    ∃ t nodes, (timerOnHeap ι HZ fuel dead).run es = some (t, os) ∧ Shows t nodes s ∧ nodes.length ≤ es.length := by
  induction es using List.reverseRecOn generalizing s os with
  | nil =>
    obtain ⟨rfl, rfl⟩ := Prod.mk.inj (Option.some.inj hrun)
    exact ⟨heapInit ι dead, [], rfl, ⟨⟨⟨List.nodup_nil, rfl, rfl⟩, by simp, fun _ _ => rfl⟩, rfl⟩, Nat.le_refl _⟩
  | append_singleton es e ih =>
    rw [List.map_append, List.map_singleton] at hrun
    obtain ⟨u, os', o, hpre, hstep, rfl⟩ := Machine.run_concat_eq_some _ |>.mp hrun
    obtain ⟨hes, hlast⟩ := Machine.everyStep_concat.mp hfresh
    rw [List.length_append, List.length_singleton] at hfuel
    obtain ⟨t, nodes, hheap, hshows, hlen⟩ := ih hpre (by omega) hes
    have hnodes : nodes.length < fuel := by omega
    obtain ⟨t', nodes', hstep', hshows', hlen'⟩ := heapStep_shows hshows hnodes (hlast t os' hheap) hstep
    refine ⟨t', nodes', ?_, hshows', ?_⟩
    · exact Machine.run_concat_eq_some _ |>.mpr ⟨t, os', o, hheap, hstep', rfl⟩
    · rw [List.length_append, List.length_singleton]
      omega

/-- Two tasks are monitored; one of them dies and is reported, the other one is released by the unload. -/
def monitorTwo : List (HeapEvent Nat) :=
  [.ioctl MY_IOCTL_TIMER_MONITOR 7 ⟨100, fun pid => some pid.toNat, some (0, ⟨.poison1, .poison2⟩)⟩, .death 7,
    .ioctl MY_IOCTL_TIMER_MONITOR 8 ⟨110, fun pid => some pid.toNat, some (1, ⟨.head, .head⟩)⟩, .expire, .exit]

end OnHeap

end DeviceDrivers.Timer
