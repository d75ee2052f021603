import DeviceDrivers.Kernel
import DeviceDrivers.Lib.Ledger
import DeviceDrivers.Lib.Machine

/-!
# The deferred timer device

`Drivers/deferredTimer/kernel/timer.c`: one kernel timer, one `flag` that says what its handler does, and
a list of monitored processes. Each entry of the list holds a reference to its task.

`timer_ioctl` is cut at `mod_timer`: `ioctlRequest` is the part before it, which writes `flag`. The
timer is its expiry time while it is pending; an expiry is possible at any time while it is. `jiffies`,
the pid table and the outcome of `kmalloc` are inputs of a call.
-/

namespace DeviceDrivers.Timer

/-- The `TIMER_TYPE_` constants. -/
inductive TimerType
  | none
  | set
  | alloc
  | monitor
  deriving DecidableEq

/-- `_IOC` of `asm/ioctl.h`; `_IO` has direction and size `0`, `_IOW` has direction `1`. -/
def ioc (dir type nr size : Nat) : BitVec 32 :=
  BitVec.ofNat 32 (dir * 2 ^ 30 + size * 2 ^ 16 + type * 2 ^ 8 + nr)

def MY_IOCTL_TIMER_SET : BitVec 32 := ioc 1 'k'.toNat 1 8
def MY_IOCTL_TIMER_CANCEL : BitVec 32 := ioc 0 'k'.toNat 2 0
def MY_IOCTL_TIMER_ALLOC : BitVec 32 := ioc 0 'k'.toNat 3 0
def MY_IOCTL_TIMER_MONITOR : BitVec 32 := ioc 1 'k'.toNat 4 8

/-- `struct monitor_process`. A task is named by a number; `request` says which of the successful
`MONITOR` requests made the entry. -/
structure MonitorProcess where
  request : Nat
  task : Nat
  deriving DecidableEq

/-- `struct timer_dev` without its `cdev` and `lock`. -/
structure TimerDev where
  timer : Option (BitVec 64)
  workQueue : Bool
  list : List MonitorProcess
  flag : TimerType

/-- The tasks as the driver sees them: which are `TASK_DEAD`, the references the driver holds to each,
the number of `MONITOR` requests that got an entry, and the reported deaths. -/
structure Tasks where
  dead : Nat → Bool
  refs : Nat → Int
  requests : Nat
  reports : List MonitorProcess

/-- `loaded` is set between `deferred_init` and `deferred_exit`. -/
structure Sys where
  dev : TimerDev
  tasks : Tasks
  loaded : Bool

/-- What a call of `timer_ioctl` finds: the time, the pid table and whether `kmalloc` succeeds. -/
structure IoctlEnv where
  jiffies : BitVec 64
  pidTask : Int → Option Nat
  kmalloc : Bool

def Tasks.getTaskStruct (k : Tasks) (task : Nat) : Tasks := { k with refs := Ledger.get k.refs task }

def Tasks.putTaskStruct (k : Tasks) (task : Nat) : Tasks := { k with refs := Ledger.put k.refs task }

/-- `get_proc`: the error of an `ERR_PTR`, or the new entry. -/
def getProc (env : IoctlEnv) (pid : Int) (k : Tasks) : Except Int (MonitorProcess × Tasks) :=
  match env.pidTask pid with
  | none => .error (-ESRCH)
  | some task =>
    if env.kmalloc then
      .ok (⟨k.requests, task⟩, { k.getTaskStruct task with requests := k.requests + 1 })
    else .error (-ENOMEM)

/-- The loop of `timer_handler`, which deletes while it walks the list. -/
def scanList : List MonitorProcess → Tasks → List MonitorProcess × Tasks
  | [], k => ([], k)
  | process :: rest, k =>
    if k.dead process.task then
      scanList rest ({ k with reports := k.reports ++ [process] }.putTaskStruct process.task)
    else
      let r := scanList rest k
      (process :: r.1, r.2)

/-- What an expiry does. -/
inductive Branch
  | nothing
  | scheduleWork
  | scan
  deriving DecidableEq

/-- `timer_handler`, and which branch of its `switch` it ran. -/
def timerHandler (s : Sys) : Sys × Branch :=
  match s.dev.flag with
  | .set => (s, .nothing)
  | .alloc => ({ s with dev.workQueue := true }, .scheduleWork)
  | .monitor =>
    let r := scanList s.dev.list s.tasks
    ({ s with dev.list := r.1, tasks := r.2 }, .scan)
  | .none => (s, .nothing)

/-- How the part of `timer_ioctl` before `mod_timer` ends: it returns, or it is about to arm the timer
this many jiffies ahead for a request of this type. -/
inductive Request
  | returns (ret : Int)
  | arms (type : TimerType) (delay : BitVec 64)

/-- `arg` as the `pid_t` that `get_proc` takes. -/
def pidArg (arg : BitVec 64) : Int := (arg.setWidth 32).toInt

def ioctlRequest (HZ : Nat) (cmd : BitVec 32) (arg : BitVec 64) (env : IoctlEnv) (s : Sys) :
    Sys × Request :=
  if cmd = MY_IOCTL_TIMER_SET then
    ({ s with dev.flag := .set }, .arms .set (arg * BitVec.ofNat 64 HZ))
  else if cmd = MY_IOCTL_TIMER_CANCEL then
    -- `del_timer`
    ({ s with dev.timer := none }, .returns 0)
  else if cmd = MY_IOCTL_TIMER_ALLOC then
    ({ s with dev.flag := .alloc }, .arms .alloc (arg * BitVec.ofNat 64 HZ))
  else if cmd = MY_IOCTL_TIMER_MONITOR then
    match getProc env (pidArg arg) s.tasks with
    | .error err => (s, .returns err)
    | .ok (p, tasks) =>
      ({ s with dev.list := p :: s.dev.list, dev.flag := .monitor, tasks := tasks },
        .arms .monitor (BitVec.ofNat 64 HZ))
  else (s, .returns 0)

/-- `mod_timer(&data->timer, jiffies + delay)` -/
def Sys.modTimer (s : Sys) (expires : BitVec 64) : Sys := { s with dev.timer := some expires }

/-- `timer_ioctl` -/
def timerIoctl (HZ : Nat) (cmd : BitVec 32) (arg : BitVec 64) (env : IoctlEnv) (s : Sys) : Sys × Int :=
  match ioctlRequest HZ cmd arg env s with
  | (s', .returns ret) => (s', ret)
  | (s', .arms _ delay) => (s'.modTimer (env.jiffies + delay), 0)

/-- The loop of `deferred_exit`. -/
def releaseList : List MonitorProcess → Tasks → Tasks
  | [], k => k
  | process :: rest, k => releaseList rest (k.putTaskStruct process.task)

/-- `deferred_exit`: `del_timer`, `cancel_work_sync`, and the release of the list. -/
def deferredExit (s : Sys) : Sys :=
  ⟨{ s.dev with timer := none, workQueue := false, list := [] }, releaseList s.dev.list s.tasks, false⟩

/-- `deferred_init`, when the region is registered, with these tasks dead. -/
def deferredInit (dead : Nat → Bool) : Sys :=
  ⟨⟨none, false, [], .none⟩, ⟨dead, fun _ => 0, 0, []⟩, true⟩

/-! ### The driver and its tasks as a machine -/

inductive TimerEvent
  | ioctl (cmd : BitVec 32) (arg : BitVec 64) (env : IoctlEnv)
  | expire
  | work
  | death (task : Nat)
  | exit

inductive TimerOutput
  | returned (ret : Int)
  | ran (branch : Branch)
  | silent
  deriving DecidableEq

/-- The expiry detaches the timer before it runs the handler. -/
def Sys.expire (s : Sys) : Sys × Branch := timerHandler { s with dev.timer := none }

def Sys.death (s : Sys) (task : Nat) : Sys :=
  { s with tasks.dead := fun t => t = task || s.tasks.dead t }

/-- Every `timer_ioctl` and every expiry is one step. A module with an open file is not unloaded, so
no call comes after `deferred_exit`. -/
def timerStep (HZ : Nat) (s : Sys) : TimerEvent → Option (Sys × TimerOutput)
  | .ioctl cmd arg env =>
    if s.loaded then
      let r := timerIoctl HZ cmd arg env s
      some (r.1, .returned r.2)
    else none
  | .expire => if s.dev.timer.isSome then some (s.expire.1, .ran s.expire.2) else none
  | .work => if s.dev.workQueue then some ({ s with dev.workQueue := false }, .silent) else none
  | .death task => some (s.death task, .silent)
  | .exit => if s.loaded then some (deferredExit s, .silent) else none

def timer (HZ : Nat) (dead : Nat → Bool) : Machine Sys TimerEvent TimerOutput :=
  ⟨deferredInit dead, timerStep HZ⟩

/-! ### What the parts of a step do -/

theorem getProc_ok {env : IoctlEnv} {pid : Int} {k k' : Tasks} {p : MonitorProcess}
    (h : getProc env pid k = .ok (p, k')) :
    env.pidTask pid = some p.task ∧ env.kmalloc = true ∧ p.request = k.requests ∧
      k' = { k.getTaskStruct p.task with requests := k.requests + 1 } := by
  unfold getProc at h
  split at h
  · simp at h
  · next task htask =>
    split_ifs at h with hkmalloc
    obtain ⟨rfl, rfl⟩ := Prod.mk.inj (Except.ok.inj h)
    exact ⟨htask, hkmalloc, rfl, rfl⟩

theorem getProc_error {env : IoctlEnv} {pid : Int} {k : Tasks} {err : Int}
    (h : getProc env pid k = .error err) :
    (env.pidTask pid = none ∧ err = -ESRCH) ∨ (env.kmalloc = false ∧ err = -ENOMEM) := by
  unfold getProc at h
  split at h
  · next htask =>
    left
    exact ⟨htask, (Except.error.inj h).symm⟩
  · split_ifs at h with hkmalloc
    right
    exact ⟨by simpa using hkmalloc, (Except.error.inj h).symm⟩

theorem ioctlRequest_cases (HZ : Nat) (cmd : BitVec 32) (arg : BitVec 64) (env : IoctlEnv) (s : Sys) :
    (∃ type, (cmd = MY_IOCTL_TIMER_SET ∧ type = .set ∨ cmd = MY_IOCTL_TIMER_ALLOC ∧ type = .alloc) ∧
      ioctlRequest HZ cmd arg env s =
        ({ s with dev.flag := type }, .arms type (arg * BitVec.ofNat 64 HZ))) ∨
    (cmd = MY_IOCTL_TIMER_CANCEL ∧
      ioctlRequest HZ cmd arg env s = ({ s with dev.timer := none }, .returns 0)) ∨
    (∃ err, cmd = MY_IOCTL_TIMER_MONITOR ∧ getProc env (pidArg arg) s.tasks = .error err ∧
      ioctlRequest HZ cmd arg env s = (s, .returns err)) ∨
    (∃ p tasks, cmd = MY_IOCTL_TIMER_MONITOR ∧ getProc env (pidArg arg) s.tasks = .ok (p, tasks) ∧
      ioctlRequest HZ cmd arg env s =
        ({ s with dev.list := p :: s.dev.list, dev.flag := .monitor, tasks := tasks },
          .arms .monitor (BitVec.ofNat 64 HZ))) ∨
    (cmd ∉ [MY_IOCTL_TIMER_SET, MY_IOCTL_TIMER_CANCEL, MY_IOCTL_TIMER_ALLOC, MY_IOCTL_TIMER_MONITOR] ∧
      ioctlRequest HZ cmd arg env s = (s, .returns 0)) := by
  by_cases hset : cmd = MY_IOCTL_TIMER_SET
  · left
    exact ⟨.set, .inl ⟨hset, rfl⟩, if_pos hset⟩
  by_cases hcancel : cmd = MY_IOCTL_TIMER_CANCEL
  · right; left
    refine ⟨hcancel, ?_⟩
    unfold ioctlRequest
    rw [if_neg hset, if_pos hcancel]
  by_cases halloc : cmd = MY_IOCTL_TIMER_ALLOC
  · left
    refine ⟨.alloc, .inr ⟨halloc, rfl⟩, ?_⟩
    unfold ioctlRequest
    rw [if_neg hset, if_neg hcancel, if_pos halloc]
  by_cases hmonitor : cmd = MY_IOCTL_TIMER_MONITOR
  · right; right
    cases hproc : getProc env (pidArg arg) s.tasks with
    | error err =>
      left
      refine ⟨err, hmonitor, rfl, ?_⟩
      unfold ioctlRequest
      rw [if_neg hset, if_neg hcancel, if_neg halloc, if_pos hmonitor, hproc]
    | ok r =>
      right; left
      refine ⟨r.1, r.2, hmonitor, rfl, ?_⟩
      unfold ioctlRequest
      rw [if_neg hset, if_neg hcancel, if_neg halloc, if_pos hmonitor, hproc]
  · right; right; right; right
    refine ⟨by simp [hset, hcancel, halloc, hmonitor], ?_⟩
    unfold ioctlRequest
    rw [if_neg hset, if_neg hcancel, if_neg halloc, if_neg hmonitor]

theorem expire_frame (s : Sys) : s.expire.1.dev.flag = s.dev.flag ∧ s.expire.1.dev.timer = none := by
  unfold Sys.expire timerHandler
  cases hflag : s.dev.flag <;> exact ⟨hflag, rfl⟩

theorem timerStep_cases {HZ : Nat} {s t : Sys} {e : TimerEvent} {o : TimerOutput}
    (h : timerStep HZ s e = some (t, o)) :
    (∃ cmd arg env, e = .ioctl cmd arg env ∧ s.loaded ∧ t = (timerIoctl HZ cmd arg env s).1 ∧
      o = .returned (timerIoctl HZ cmd arg env s).2) ∨
    (e = .expire ∧ s.dev.timer.isSome ∧ t = s.expire.1 ∧ o = .ran s.expire.2) ∨
    (e = .work ∧ s.dev.workQueue ∧ t = { s with dev.workQueue := false } ∧ o = .silent) ∨
    (∃ task, e = .death task ∧ t = s.death task ∧ o = .silent) ∨
    (e = .exit ∧ s.loaded ∧ t = deferredExit s ∧ o = .silent) := by
  cases e with
  | ioctl cmd arg env =>
    simp only [timerStep] at h
    split_ifs at h with hloaded
    obtain ⟨rfl, rfl⟩ := Prod.mk.inj (Option.some.inj h)
    left
    exact ⟨cmd, arg, env, rfl, hloaded, rfl, rfl⟩
  | expire =>
    simp only [timerStep] at h
    split_ifs at h with hpending
    obtain ⟨rfl, rfl⟩ := Prod.mk.inj (Option.some.inj h)
    right; left
    exact ⟨rfl, hpending, rfl, rfl⟩
  | work =>
    simp only [timerStep] at h
    split_ifs at h with hqueued
    obtain ⟨rfl, rfl⟩ := Prod.mk.inj (Option.some.inj h)
    right; right; left
    exact ⟨rfl, hqueued, rfl, rfl⟩
  | death task =>
    obtain ⟨rfl, rfl⟩ := Prod.mk.inj (Option.some.inj h)
    right; right; right; left
    exact ⟨task, rfl, rfl, rfl⟩
  | exit =>
    simp only [timerStep] at h
    split_ifs at h with hloaded
    obtain ⟨rfl, rfl⟩ := Prod.mk.inj (Option.some.inj h)
    right; right; right; right
    exact ⟨rfl, hloaded, rfl, rfl⟩

theorem timerIoctl_of_getProc_error {HZ : Nat} {arg : BitVec 64} {env : IoctlEnv} {s : Sys} {err : Int}
    (h : getProc env (pidArg arg) s.tasks = .error err) :
    timerIoctl HZ MY_IOCTL_TIMER_MONITOR arg env s = (s, err) := by
  unfold timerIoctl ioctlRequest
  rw [if_neg (by decide), if_neg (by decide), if_neg (by decide), if_pos rfl, h]

theorem timerIoctl_of_getProc_ok {HZ : Nat} {arg : BitVec 64} {env : IoctlEnv} {s : Sys} {p : MonitorProcess} {k : Tasks}
    (h : getProc env (pidArg arg) s.tasks = .ok (p, k)) :
    timerIoctl HZ MY_IOCTL_TIMER_MONITOR arg env s =
      (({ s with dev.list := p :: s.dev.list, dev.flag := .monitor, tasks := k } : Sys).modTimer
        (env.jiffies + BitVec.ofNat 64 HZ), 0) := by
  unfold timerIoctl ioctlRequest
  rw [if_neg (by decide), if_neg (by decide), if_neg (by decide), if_pos rfl, h]

theorem expire_loaded (s : Sys) : s.expire.1.loaded = s.loaded := by
  unfold Sys.expire timerHandler
  cases s.dev.flag <;> rfl

theorem loaded_of_step {HZ : Nat} {s s' : Sys} {e : TimerEvent} {o : TimerOutput}
    (hstep : timerStep HZ s e = some (s', o)) (he : e ≠ .exit) : s'.loaded = s.loaded := by
  rcases timerStep_cases hstep with ⟨cmd, arg, env, rfl, -, rfl, -⟩ | ⟨rfl, -, rfl, -⟩ | ⟨rfl, -, rfl, -⟩ |
    ⟨task, rfl, rfl, -⟩ | ⟨rfl, -, rfl, -⟩
  · unfold timerIoctl
    rcases ioctlRequest_cases HZ cmd arg env s with ⟨type, -, hreq⟩ | ⟨-, hreq⟩ | ⟨err, -, -, hreq⟩ |
      ⟨p, tasks, -, -, hreq⟩ | ⟨-, hreq⟩
    · rw [hreq]
      rfl
    all_goals rw [hreq]
    rfl
  · exact expire_loaded s
  · rfl
  · rfl
  · exact (he rfl).elim

end DeviceDrivers.Timer
