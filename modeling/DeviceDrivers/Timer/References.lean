import DeviceDrivers.Timer.Device

/-!
# Task references of the timer device

`get_proc` takes a reference, `timer_ioctl` links the entry that holds it, and the references are dropped
by the two loops of `timer_handler` and `deferred_exit`. In every reachable state the driver holds one
reference for every entry of its list, and the request of an entry is reported at most once, when its
task is dead.
-/

namespace DeviceDrivers.Timer

open Ledger (holders Balanced)
open scoped List

/-! ### The loops -/

theorem scanList_eq (l : List MonitorProcess) (k : Tasks) :
    (scanList l k).1 = l.filter (fun p => !k.dead p.task) ∧
      (scanList l k).2.reports = k.reports ++ l.filter (fun p => k.dead p.task) ∧
      (scanList l k).2.dead = k.dead ∧ (scanList l k).2.requests = k.requests := by
  induction l generalizing k with
  | nil => simp [scanList]
  | cons p rest ih =>
    unfold scanList
    by_cases hdead : k.dead p.task = true
    · rw [if_pos hdead]
      obtain ⟨hkept, hreports, hdeads, hrequests⟩ :=
        ih ({ k with reports := k.reports ++ [p] }.putTaskStruct p.task)
      refine ⟨?_, ?_, hdeads, hrequests⟩
      · rw [hkept]
        simp [Tasks.putTaskStruct, hdead]
      · rw [hreports]
        simp [Tasks.putTaskStruct, hdead]
    · rw [if_neg hdead]
      obtain ⟨hkept, hreports, hdeads, hrequests⟩ := ih k
      refine ⟨?_, ?_, hdeads, hrequests⟩
      · simp [hkept, hdead]
      · simp [hreports, hdead]

/-- The scan drops the reference of every entry it removes; `pre` is what it has already kept. -/
theorem scanList_balanced (l pre : List MonitorProcess) (k : Tasks)
    (h : Balanced MonitorProcess.task k.refs (pre ++ l)) :
    Balanced MonitorProcess.task (scanList l k).2.refs (pre ++ (scanList l k).1) := by
  induction l generalizing k pre with
  | nil => exact h
  | cons p rest ih =>
    unfold scanList
    by_cases hdead : k.dead p.task = true
    · rw [if_pos hdead]
      apply ih
      exact (h.perm List.perm_middle).put
    · rw [if_neg hdead]
      have := ih (pre ++ [p]) k (by simpa using h)
      simpa using this

theorem releaseList_refs (l : List MonitorProcess) (k : Tasks)
    (h : Balanced MonitorProcess.task k.refs l) (task : Nat) : (releaseList l k).refs task = 0 := by
  induction l generalizing k with
  | nil => exact h task
  | cons p rest ih =>
    unfold releaseList
    exact ih (k.putTaskStruct p.task) h.put

theorem releaseList_frame (l : List MonitorProcess) (k : Tasks) :
    (releaseList l k).dead = k.dead ∧ (releaseList l k).requests = k.requests ∧
      (releaseList l k).reports = k.reports := by
  induction l generalizing k with
  | nil => exact ⟨rfl, rfl, rfl⟩
  | cons p rest ih => exact ih (k.putTaskStruct p.task)

/-! ### The invariant -/

/-- One reference for every entry, every request in the list or reported once, and only the dead
reported. -/
structure Accounted (s : Sys) : Prop where
  balanced : Balanced MonitorProcess.task s.tasks.refs s.dev.list
  earlier : ∀ p ∈ s.dev.list ++ s.tasks.reports, p.request < s.tasks.requests
  distinct : ((s.dev.list ++ s.tasks.reports).map (·.request)).Nodup
  reported : ∀ p ∈ s.tasks.reports, s.tasks.dead p.task = true

theorem Accounted.reports_distinct {s : Sys} (hs : Accounted s) :
    (s.tasks.reports.map (·.request)).Nodup :=
  hs.distinct.sublist ((List.sublist_append_right _ _).map _)

theorem Accounted.of_eq {s t : Sys} (hs : Accounted s) (hlist : t.dev.list = s.dev.list)
    (htasks : t.tasks = s.tasks) : Accounted t := by
  refine ⟨?_, ?_, ?_, ?_⟩
  · rw [hlist, htasks]
    exact hs.balanced
  · rw [hlist, htasks]
    exact hs.earlier
  · rw [hlist, htasks]
    exact hs.distinct
  · rw [htasks]
    exact hs.reported

theorem Accounted.monitor {s : Sys} (hs : Accounted s) {env : IoctlEnv} {pid : Int}
    {p : MonitorProcess} {tasks : Tasks} (hproc : getProc env pid s.tasks = .ok (p, tasks))
    {t : Sys} (hlist : t.dev.list = p :: s.dev.list) (htasks : t.tasks = tasks) : Accounted t := by
  obtain ⟨-, -, hrequest, rfl⟩ := getProc_ok hproc
  have hbefore : ∀ q ∈ s.dev.list ++ s.tasks.reports, q.request < p.request := by
    rw [hrequest]
    exact hs.earlier
  refine ⟨?_, ?_, ?_, ?_⟩
  · rw [hlist, htasks]
    exact hs.balanced.get p
  · rw [hlist, htasks, List.cons_append, List.forall_mem_cons, hrequest]
    exact ⟨Nat.lt_succ_self _, fun q hq => Nat.lt_succ_of_lt (hs.earlier q hq)⟩
  · rw [hlist, htasks, List.cons_append, List.map_cons, List.nodup_cons]
    refine ⟨?_, hs.distinct⟩
    intro hmem
    obtain ⟨q, hq, heq⟩ := List.mem_map.mp hmem
    have := hbefore q hq
    omega
  · rw [htasks]
    exact hs.reported

theorem monitor_cases (HZ : Nat) (arg : BitVec 64) (env : IoctlEnv) (s : Sys) :
    (((timerIoctl HZ MY_IOCTL_TIMER_MONITOR arg env s).2 = -ESRCH ∨
      (timerIoctl HZ MY_IOCTL_TIMER_MONITOR arg env s).2 = -ENOMEM) ∧
        (timerIoctl HZ MY_IOCTL_TIMER_MONITOR arg env s).1 = s) ∨
    ((timerIoctl HZ MY_IOCTL_TIMER_MONITOR arg env s).2 = 0 ∧ ∃ task,
      env.pidTask (pidArg arg) = some task ∧
      (timerIoctl HZ MY_IOCTL_TIMER_MONITOR arg env s).1.dev.list =
        ⟨s.tasks.requests, task⟩ :: s.dev.list ∧
      (timerIoctl HZ MY_IOCTL_TIMER_MONITOR arg env s).1.tasks.requests = s.tasks.requests + 1) := by
  obtain ⟨type, hcmd, -⟩ | ⟨hcmd, -⟩ | ⟨err, -, herr, heq⟩ | ⟨p, tasks, -, hproc, heq⟩ | ⟨hcmd, -⟩ :=
    ioctlRequest_cases HZ MY_IOCTL_TIMER_MONITOR arg env s
  · rcases hcmd with ⟨hcmd, -⟩ | ⟨hcmd, -⟩ <;> exact absurd hcmd (by decide)
  · exact absurd hcmd (by decide)
  · left
    have hresult : timerIoctl HZ MY_IOCTL_TIMER_MONITOR arg env s = (s, err) := by
      simp only [timerIoctl, heq]
    rw [hresult]
    exact ⟨(getProc_error herr).imp And.right And.right, rfl⟩
  · right
    obtain ⟨htask, -, hrequest, rfl⟩ := getProc_ok hproc
    simp only [timerIoctl, heq]
    refine ⟨trivial, p.task, htask, ?_, rfl⟩
    rw [← hrequest]
    rfl
  · exact absurd hcmd (by decide)

theorem Accounted.ioctl {s : Sys} (hs : Accounted s) (HZ : Nat) (cmd : BitVec 32) (arg : BitVec 64)
    (env : IoctlEnv) : Accounted (timerIoctl HZ cmd arg env s).1 := by
  obtain ⟨type, -, heq⟩ | ⟨-, heq⟩ | ⟨err, -, -, heq⟩ | ⟨p, tasks, -, hproc, heq⟩ | ⟨-, heq⟩ :=
    ioctlRequest_cases HZ cmd arg env s
  · simp only [timerIoctl, heq]
    exact hs.of_eq rfl rfl
  · simp only [timerIoctl, heq]
    exact hs.of_eq rfl rfl
  · simp only [timerIoctl, heq]
    exact hs
  · simp only [timerIoctl, heq]
    exact hs.monitor hproc rfl rfl
  · simp only [timerIoctl, heq]
    exact hs

theorem expire_cases (s : Sys) :
    (s.dev.flag = .monitor ∧ s.expire.1.dev.list = (scanList s.dev.list s.tasks).1 ∧
      s.expire.1.tasks = (scanList s.dev.list s.tasks).2) ∨
    (s.dev.flag ≠ .monitor ∧ s.expire.1.dev.list = s.dev.list ∧ s.expire.1.tasks = s.tasks) := by
  cases hflag : s.dev.flag with
  | monitor =>
    left
    refine ⟨rfl, ?_, ?_⟩ <;> simp only [Sys.expire, timerHandler, hflag]
  | _ =>
    right
    refine ⟨by simp, ?_, ?_⟩ <;> simp only [Sys.expire, timerHandler, hflag]

theorem Accounted.scan {s t : Sys} (hs : Accounted s)
    (hlist : t.dev.list = (scanList s.dev.list s.tasks).1)
    (htasks : t.tasks = (scanList s.dev.list s.tasks).2) : Accounted t := by
  obtain ⟨hkept, hreports, hdead, hrequests⟩ := scanList_eq s.dev.list s.tasks
  -- entries only move from the list to the reports
  have hperm : (t.dev.list ++ t.tasks.reports).Perm (s.dev.list ++ s.tasks.reports) := by
    rw [hlist, htasks, hkept, hreports]
    calc s.dev.list.filter (fun p => !s.tasks.dead p.task) ++
          (s.tasks.reports ++ s.dev.list.filter fun p => s.tasks.dead p.task)
        = s.dev.list.filter (fun p => !s.tasks.dead p.task) ++ s.tasks.reports ++
          s.dev.list.filter (fun p => s.tasks.dead p.task) := (List.append_assoc _ _ _).symm
      _ ~ s.dev.list.filter (fun p => s.tasks.dead p.task) ++
          (s.dev.list.filter (fun p => !s.tasks.dead p.task) ++ s.tasks.reports) :=
        List.perm_append_comm
      _ = s.dev.list.filter (fun p => s.tasks.dead p.task) ++
          s.dev.list.filter (fun p => !s.tasks.dead p.task) ++ s.tasks.reports :=
        (List.append_assoc _ _ _).symm
      _ ~ s.dev.list ++ s.tasks.reports := (List.filter_append_perm _ _).append_right _
  refine ⟨?_, ?_, ?_, ?_⟩
  · rw [hlist, htasks]
    exact scanList_balanced s.dev.list [] s.tasks hs.balanced
  · intro p hp
    rw [htasks, hrequests]
    exact hs.earlier p (hperm.mem_iff.mp hp)
  · exact (hperm.map _).nodup_iff.mpr hs.distinct
  · intro p hp
    rw [htasks, hreports, List.mem_append] at hp
    rw [htasks, hdead]
    rcases hp with hp | hp
    · exact hs.reported p hp
    · exact (List.mem_filter.mp hp).2

theorem Accounted.exit {s : Sys} (hs : Accounted s) : Accounted (deferredExit s) := by
  obtain ⟨hdead, hrequests, hreports⟩ := releaseList_frame s.dev.list s.tasks
  unfold deferredExit
  refine ⟨?_, ?_, ?_, ?_⟩
  · intro task
    exact releaseList_refs s.dev.list s.tasks hs.balanced task
  · rw [hreports, hrequests]
    exact fun p hp => hs.earlier p (List.mem_append_right _ hp)
  · rw [hreports]
    exact hs.reports_distinct
  · rw [hreports, hdead]
    exact hs.reported

theorem timer_accounted (HZ : Nat) (dead : Nat → Bool) : (timer HZ dead).Invariant Accounted where
  init := ⟨Ledger.balanced_nil, by simp [timer, deferredInit], by simp [timer, deferredInit],
    by simp [timer, deferredInit]⟩
  step := by
    intro s t e o hs hstep
    obtain ⟨cmd, arg, env, -, -, rfl, -⟩ | ⟨-, -, rfl, -⟩ | ⟨-, -, rfl, -⟩ | ⟨task, -, rfl, -⟩ |
      ⟨-, -, rfl, -⟩ := timerStep_cases hstep
    · exact hs.ioctl HZ cmd arg env
    · rcases expire_cases s with ⟨-, hlist, htasks⟩ | ⟨-, hlist, htasks⟩
      · exact hs.scan hlist htasks
      · exact hs.of_eq hlist htasks
    · exact hs.of_eq rfl rfl
    · refine ⟨hs.balanced, hs.earlier, hs.distinct, fun p hp => ?_⟩
      simp [Sys.death, hs.reported p hp]
    · exact hs.exit

/-! ### The result -/

/-- In every reachable state the driver holds as many references to a task as it has entries for it. A
failed `MONITOR` changes nothing, and a successful one adds one entry, with the next request number. An
expiry with `flag = TIMER_TYPE_MONITOR` removes the entries of dead
tasks and no others, drops one reference for each and reports it; no request is reported twice, and none
whose task is not dead. After `deferred_exit` nothing is left. -/
theorem reference_ledger (HZ : Nat) (dead : Nat → Bool) {es : List TimerEvent} {s : Sys}
    {os : List TimerOutput} (hrun : (timer HZ dead).run es = some (s, os)) :
    (∀ task, s.tasks.refs task = holders MonitorProcess.task s.dev.list task) ∧
    (∀ arg env t ret,
      (timer HZ dead).step s (.ioctl MY_IOCTL_TIMER_MONITOR arg env) = some (t, .returned ret) →
      ((ret = -ESRCH ∨ ret = -ENOMEM) ∧ t = s) ∨
      (ret = 0 ∧ ∃ task, env.pidTask (pidArg arg) = some task ∧
        t.dev.list = ⟨s.tasks.requests, task⟩ :: s.dev.list ∧
        t.tasks.requests = s.tasks.requests + 1)) ∧
    (s.dev.flag = .monitor → ∀ t o, (timer HZ dead).step s .expire = some (t, o) →
      t.dev.list = s.dev.list.filter (fun p => !s.tasks.dead p.task) ∧
      t.tasks.reports = s.tasks.reports ++ s.dev.list.filter (fun p => s.tasks.dead p.task) ∧
      ∀ task, t.tasks.refs task = s.tasks.refs task -
        holders MonitorProcess.task (s.dev.list.filter fun p => s.tasks.dead p.task) task) ∧
    (s.tasks.reports.map (·.request)).Nodup ∧
    (∀ p ∈ s.tasks.reports, s.tasks.dead p.task = true) ∧
    (∀ t o, (timer HZ dead).step s .exit = some (t, o) →
      t.dev.list = [] ∧ ∀ task, t.tasks.refs task = 0) := by
  have hs : Accounted s := (timer_accounted HZ dead).run hrun
  refine ⟨hs.balanced, ?_, ?_, hs.reports_distinct, hs.reported, ?_⟩
  · intro arg env t ret hstep
    simp only [timer, timerStep] at hstep
    split_ifs at hstep
    obtain ⟨rfl, heq⟩ := Prod.mk.inj (Option.some.inj hstep)
    obtain rfl := TimerOutput.returned.inj heq
    exact monitor_cases HZ arg env s
  · intro hflag t o hstep
    have ht : Accounted t := (timer_accounted HZ dead).step hs hstep
    simp only [timer, timerStep] at hstep
    split_ifs at hstep
    obtain ⟨rfl, -⟩ := Prod.mk.inj (Option.some.inj hstep)
    obtain ⟨-, hlist, htasks⟩ | ⟨hne, -, -⟩ := expire_cases s
    · obtain ⟨hkept, hreports, -, -⟩ := scanList_eq s.dev.list s.tasks
      refine ⟨hlist.trans hkept, by rw [htasks, hreports], fun task => ?_⟩
      rw [ht.balanced task, hs.balanced task, hlist, hkept,
        Ledger.holders_filter (fun p => s.tasks.dead p.task) s.dev.list task]
      omega
    · exact absurd hflag hne
  · intro t o hstep
    simp only [timer, timerStep] at hstep
    split_ifs at hstep
    obtain ⟨rfl, -⟩ := Prod.mk.inj (Option.some.inj hstep)
    exact ⟨rfl, releaseList_refs s.dev.list s.tasks hs.balanced⟩

/-- A process is monitored twice and dies: both entries are gone and no reference is left. -/
theorem reference_ledger_monitored_twice :
    ∃ s os, (timer 250 fun _ => false).run
        [.ioctl MY_IOCTL_TIMER_MONITOR 5 ⟨0, fun _ => some 1, true⟩,
          .ioctl MY_IOCTL_TIMER_MONITOR 5 ⟨10, fun _ => some 1, true⟩, .death 1, .expire] =
        some (s, os) ∧ s.dev.list = [] ∧ s.tasks.refs 1 = 0 := by
  refine ⟨_, _, rfl, rfl, ?_⟩
  exact (@reference_ledger 250 (fun _ => false)
    [.ioctl MY_IOCTL_TIMER_MONITOR 5 ⟨0, fun _ => some 1, true⟩,
      .ioctl MY_IOCTL_TIMER_MONITOR 5 ⟨10, fun _ => some 1, true⟩, .death 1, .expire] _ _ rfl).1 1

end DeviceDrivers.Timer
