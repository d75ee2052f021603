import DeviceDrivers.Lib.Strtol
import DeviceDrivers.Timer.Early
import DeviceDrivers.Timer.References

/-!
# The program that talks to the timer driver

`main` of `Drivers/deferredTimer/user/user.cpp`, with the methods of `TimerDriver`: from the words of a command line to
the one `ioctl` it makes and the line it prints. Any number of such programs run beside the timer, the tasks and the
unload of the driver.

A command line `p <pid>` whose program says nothing is watched: its process is in the list of the driver until it is
reported dead, once, or the driver is unloaded. Nothing else is ever watched (`watched_commands`).
-/

namespace DeviceDrivers.Timer

open Strtol (stoi StoiError Denotes IsInt)
open scoped List
open Clock (reading)

/-! ### The program -/

/-- The `ioctl` that a method of `TimerDriver` makes, and what it prints when the call fails. -/
structure DriverCall where
  cmd : BitVec 32
  arg : BitVec 64
  failed : String

namespace TimerDriver

/-- `time` is an `int` where `ioctl` takes an `unsigned long`: the upper half of its register is clear. -/
def setTimer (time : Int) : DriverCall :=
  ⟨MY_IOCTL_TIMER_SET, (BitVec.ofInt 32 time).setWidth 64, "[ERROR] Failed to set timer\n"⟩

/-- `ioctl` gets no third argument here; `rest` is what the kernel finds in its place. -/
def cancelTimer (rest : BitVec 64) : DriverCall := ⟨MY_IOCTL_TIMER_CANCEL, rest, "[ERROR] timer failed to cancel\n"⟩

def allocTimer (rest : BitVec 64) : DriverCall := ⟨MY_IOCTL_TIMER_ALLOC, rest, "[ERROR] timer failed to alloc\n"⟩

def monitorTimer (pid : BitVec 64) : DriverCall := ⟨MY_IOCTL_TIMER_MONITOR, pid, "[ERROR] timer failed to alloc\n"⟩

end TimerDriver

/-- How `main` ends: with a line and a status, by an exception, or through a method of `TimerDriver`. -/
inductive MainEnd
  | returns (status : Int) (printed : String)
  | throws (e : StoiError)
  | calls (call : DriverCall)

/-- `main` -/
def main (argv : List (List Char)) (rest : BitVec 64) : MainEnd :=
  if argv.length < 2 then .returns 1 "[ERROR] zero args were passed\n"
  else
    -- `*argv[1]`
    let cmd := (argv.getD 1 []).headD '\x00'
    if cmd = 's' then
      if argv.length ≠ 3 then .returns 1 "[ERROR] argc not met\n"
      else
        match stoi (argv.getD 2 []) with
        | .error e => .throws e
        | .ok duration => .calls (TimerDriver.setTimer duration)
    else if cmd = 'c' then
      if argv.length ≠ 2 then .returns 1 "[ERROR] argc not met\n" else .calls (TimerDriver.cancelTimer rest)
    else if cmd = 'a' then
      if argv.length ≠ 2 then .returns 1 "[ERROR] argc not met\n" else .calls (TimerDriver.allocTimer rest)
    else if cmd = 'p' then
      if argv.length ≠ 3 then .returns 1 "[ERROR] argc not met\n"
      else
        match stoi (argv.getD 2 []) with
        | .error e => .throws e
        | .ok pid => .calls (TimerDriver.monitorTimer (BitVec.ofInt 64 pid))
    else .returns 0 ("[ERROR] unknown cmd" ++ String.singleton cmd ++ "\n")

/-! ### Programs and the driver -/

/-- A run of the program, with the outcome of its `open` and what its `ioctl` finds, or a step of the driver. -/
inductive UserEvent
  | program (argv : List (List Char)) (rest : BitVec 64) (opened : Bool) (env : IoctlEnv)
  | driver (e : TimerEvent)

inductive UserOutput
  | ended (status : Int) (printed : String)
  | terminated (e : StoiError)
  | driver (o : TimerOutput)

/-- The rest of the program, with the driver in state `s`. -/
def MainEnd.finish (HZ : Nat) (opened : Bool) (env : IoctlEnv) (s : Sys) : MainEnd → Sys × UserOutput
  | .returns status printed => (s, .ended status printed)
  | .throws e => (s, .terminated e)
  | .calls call =>
    if opened then
      let r := timerIoctl HZ call.cmd call.arg env s
      (r.1, .ended 0 (if r.2 < 0 then call.failed else ""))
    else
      -- an `ioctl` on the descriptor `-1`
      (s, .ended 0 call.failed)

/-- Without the driver there is no device to open. The calls of the driver are those of the programs. -/
def userStep (HZ : Nat) (s : Sys) : UserEvent → Option (Sys × UserOutput)
  | .program argv rest opened env =>
    if opened = true ∧ s.loaded = false then none else some ((main argv rest).finish HZ opened env s)
  | .driver (.ioctl ..) => none
  | .driver e => (timerStep HZ s e).map fun r => (r.1, .driver r.2)

def user (HZ : Nat) (dead : Nat → Bool) : Machine Sys UserEvent UserOutput := ⟨deferredInit dead, userStep HZ⟩

/-- A timer that is set from the command line is never early, with a negative duration neither. -/
theorem setTimer_neverEarly {HZ : Nat} (hHZ : HZ ≤ 2 ^ 31) (time : Int) (s : Sys) (now : Nat) {env : IoctlEnv}
    (hjiffies : env.jiffies = reading 64 now) :
    NeverEarly HZ ⟨(timerIoctl HZ (TimerDriver.setTimer time).cmd (TimerDriver.setTimer time).arg env s).1, now⟩
      (now + (TimerDriver.setTimer time).arg.toNat * HZ) := by
  have harmed := @timerIoctl_timer HZ _ (TimerDriver.setTimer time).arg env s (.inl rfl)
  rw [hjiffies] at harmed
  refine (armed_neverEarly_iff HZ _ harmed).mpr ?_
  have hlt : (TimerDriver.setTimer time).arg.toNat < 2 ^ 32 := by
    unfold TimerDriver.setTimer
    rw [BitVec.toNat_setWidth]
    exact Nat.lt_of_le_of_lt (Nat.mod_le _ _) (BitVec.isLt _)
  calc (TimerDriver.setTimer time).arg.toNat * HZ ≤ 2 ^ 32 * 2 ^ 31 := Nat.mul_le_mul hlt.le hHZ
    _ = 2 ^ 63 := by decide

/-! ### What is watched -/

/-- A run of the program with `p`. -/
def UserEvent.IsMonitor : UserEvent → Prop
  | .program argv _ _ _ => ∃ name letters words, argv = name :: ('p' :: letters) :: words
  | _ => False

/-- The command line names the process of this task, and the kernel has it and the memory for an entry. -/
def UserEvent.Watches : UserEvent → Nat → Prop
  | .program argv _ opened env, task => ∃ name letters text pid, argv = [name, 'p' :: letters, text] ∧
      Denotes text pid ∧ IsInt pid ∧ opened = true ∧ env.pidTask pid = some task ∧ env.kmalloc = true
  | _, _ => False

/-- The tasks that a run asks to watch, in order. Of the programs that are run with `p` only these print nothing. -/
inductive AskedFor : List UserEvent → List UserOutput → List Nat → Prop
  | nil : AskedFor [] [] []
  | watch {es os tasks e task} (h : AskedFor es os tasks) (he : e.Watches task) :
      AskedFor (es ++ [e]) (os ++ [.ended 0 ""]) (tasks ++ [task])
  | other {es os tasks e o} (h : AskedFor es os tasks) (he : ∀ task, ¬ e.Watches task)
      (ho : e.IsMonitor → o ≠ .ended 0 "") : AskedFor (es ++ [e]) (os ++ [o]) tasks

/-- Each of these requests is in the list, was reported, or was given up with the driver. -/
structure Watching (tasks : List Nat) (released : List MonitorProcess) (s : Sys) : Prop where
  entries : (s.dev.list ++ s.tasks.reports ++ released).Perm (tasks.mapIdx MonitorProcess.mk)
  requests : s.tasks.requests = tasks.length
  loaded : s.loaded = true → released = []
  unloaded : s.loaded = false → s.dev.list = []

/-! ### The command line of a `MONITOR` -/

theorem pidArg_ofInt {pid : Int} (h : IsInt pid) : pidArg (BitVec.ofInt 64 pid) = pid := by
  obtain ⟨hlow, hhigh⟩ := h
  have hdvd : ((2 ^ 32 : Nat) : Int) ∣ ((2 ^ 64 : Nat) : Int) := by decide
  unfold pidArg
  rw [BitVec.toInt_setWidth, BitVec.toNat_ofInt, Int.toNat_of_nonneg (Int.emod_nonneg _ (by decide)), ← Int.emod_bmod,
    Int.emod_emod_of_dvd _ hdvd, Int.emod_bmod]
  exact Int.bmod_eq_of_le (by omega) (by omega)

theorem main_monitor_ok {text : List Char} {pid : Int} (h : stoi text = .ok pid) (name letters : List Char)
    (rest : BitVec 64) :
    main [name, 'p' :: letters, text] rest = .calls (TimerDriver.monitorTimer (BitVec.ofInt 64 pid)) := by
  simp [main, h]

theorem main_monitor_error {text : List Char} {e : StoiError} (h : stoi text = .error e) (name letters : List Char)
    (rest : BitVec 64) : main [name, 'p' :: letters, text] rest = .throws e := by
  simp [main, h]

theorem main_monitor_argc {words : List (List Char)} (h : words.length ≠ 1) (name letters : List Char)
    (rest : BitVec 64) :
    main (name :: ('p' :: letters) :: words) rest = .returns 1 "[ERROR] argc not met\n" := by
  simp [main, h]

theorem main_not_monitor {argv : List (List Char)} (h : ∀ name letters text, argv ≠ [name, 'p' :: letters, text])
    (rest : BitVec 64) :
    (∃ status printed, main argv rest = .returns status printed) ∨ (∃ e, main argv rest = .throws e) ∨
      ∃ call, main argv rest = .calls call ∧ call.cmd ≠ MY_IOCTL_TIMER_MONITOR := by
  unfold main
  dsimp only
  split_ifs with hargc hs hlen hc hlen ha hlen hp hlen
  · left
    exact ⟨_, _, rfl⟩
  · left
    exact ⟨_, _, rfl⟩
  · cases stoi (argv.getD 2 []) with
    | error e =>
      right; left
      exact ⟨e, rfl⟩
    | ok duration =>
      right; right
      exact ⟨_, rfl, (by decide : MY_IOCTL_TIMER_SET ≠ MY_IOCTL_TIMER_MONITOR)⟩
  · left
    exact ⟨_, _, rfl⟩
  · right; right
    exact ⟨_, rfl, (by decide : MY_IOCTL_TIMER_CANCEL ≠ MY_IOCTL_TIMER_MONITOR)⟩
  · left
    exact ⟨_, _, rfl⟩
  · right; right
    exact ⟨_, rfl, (by decide : MY_IOCTL_TIMER_ALLOC ≠ MY_IOCTL_TIMER_MONITOR)⟩
  · left
    exact ⟨_, _, rfl⟩
  · -- three words, the second one with a `p`
    obtain ⟨name, word, text, rfl⟩ := List.length_eq_three.mp (not_not.mp hlen)
    cases word with
    | nil => simp at hp
    | cons ch letters =>
      obtain rfl : ch = 'p' := hp
      exact (h name letters text rfl).elim
  · left
    exact ⟨_, _, rfl⟩

theorem watches_iff {name letters text : List Char} {rest : BitVec 64} {opened : Bool} {env : IoctlEnv} {task : Nat} :
    (UserEvent.program [name, 'p' :: letters, text] rest opened env).Watches task ↔
      ∃ pid, stoi text = .ok pid ∧ opened = true ∧ env.pidTask pid = some task ∧ env.kmalloc = true := by
  constructor
  · rintro ⟨_, _, _, pid, hargv, htext, hint, hrest⟩
    obtain ⟨-, hargv⟩ := List.cons.inj hargv
    obtain ⟨-, hargv⟩ := List.cons.inj hargv
    obtain ⟨rfl, -⟩ := List.cons.inj hargv
    exact ⟨pid, Strtol.stoi_eq_ok_iff.mpr ⟨htext, hint⟩, hrest⟩
  · rintro ⟨pid, hstoi, hrest⟩
    obtain ⟨htext, hint⟩ := Strtol.stoi_eq_ok_iff.mp hstoi
    exact ⟨name, letters, text, pid, rfl, htext, hint, hrest⟩

/-! ### One step -/

section Step

variable {HZ : Nat} {tasks : List Nat} {released : List MonitorProcess} {s t : Sys}

theorem Watching.keep (hs : Watching tasks released s) (hlist : t.dev.list = s.dev.list) (htasks : t.tasks = s.tasks)
    (hloaded : t.loaded = s.loaded) : Watching tasks released t := by
  refine ⟨?_, ?_, ?_, ?_⟩
  · rw [hlist, htasks]
    exact hs.entries
  · rw [htasks]
    exact hs.requests
  · rw [hloaded]
    exact hs.loaded
  · rw [hloaded, hlist]
    exact hs.unloaded

theorem Watching.monitor (hs : Watching tasks released s) (hloaded : s.loaded = true) {env : IoctlEnv} {pid : Int}
    {p : MonitorProcess} {k : Tasks} (hproc : getProc env pid s.tasks = .ok (p, k)) (hlist : t.dev.list = p :: s.dev.list)
    (htasks : t.tasks = k) (hkept : t.loaded = s.loaded) : Watching (tasks ++ [p.task]) released t := by
  obtain ⟨-, -, hrequest, rfl⟩ := getProc_ok hproc
  have hentry : p = ⟨tasks.length, p.task⟩ := by
    rw [← hs.requests, ← hrequest]
  refine ⟨?_, ?_, ?_, ?_⟩
  · rw [List.mapIdx_concat, ← hentry, hlist, htasks]
    show (p :: (s.dev.list ++ s.tasks.reports ++ released)).Perm _
    exact (hs.entries.cons p).trans (List.perm_append_singleton p _).symm
  · rw [htasks, List.length_append, List.length_singleton, ← hs.requests]
  · rw [hkept]
    exact hs.loaded
  · rw [hkept, hloaded]
    exact fun h => nomatch h

theorem timerIoctl_frame {cmd : BitVec 32} (hcmd : cmd ≠ MY_IOCTL_TIMER_MONITOR) (arg : BitVec 64) (env : IoctlEnv)
    (s : Sys) : (timerIoctl HZ cmd arg env s).1.dev.list = s.dev.list ∧
      (timerIoctl HZ cmd arg env s).1.tasks = s.tasks ∧ (timerIoctl HZ cmd arg env s).1.loaded = s.loaded := by
  unfold timerIoctl
  rcases ioctlRequest_cases HZ cmd arg env s with ⟨type, -, hreq⟩ | ⟨-, hreq⟩ | ⟨_, heq, -⟩ | ⟨_, _, heq, -⟩ | ⟨-, hreq⟩
  · rw [hreq]
    exact ⟨rfl, rfl, rfl⟩
  · rw [hreq]
    exact ⟨rfl, rfl, rfl⟩
  · exact (hcmd heq).elim
  · exact (hcmd heq).elim
  · rw [hreq]
    exact ⟨rfl, rfl, rfl⟩

theorem monitorTimer_failed (pid : BitVec 64) :
    UserOutput.ended 0 (TimerDriver.monitorTimer pid).failed ≠ .ended 0 "" := by
  intro h
  have hprinted : "[ERROR] timer failed to alloc\n" = "" := (UserOutput.ended.inj h).2
  exact absurd hprinted (by decide)

theorem finish_monitor_error {pid : BitVec 64} {env : IoctlEnv} {err : Int}
    (hproc : getProc env (pidArg pid) s.tasks = .error err) :
    (MainEnd.calls (TimerDriver.monitorTimer pid)).finish HZ true env s =
      (s, .ended 0 (TimerDriver.monitorTimer pid).failed) := by
  have hnegative : err < 0 := by
    rcases getProc_error hproc with ⟨-, rfl⟩ | ⟨-, rfl⟩
    · decide
    · decide
  show ((timerIoctl HZ MY_IOCTL_TIMER_MONITOR pid env s).1,
    UserOutput.ended 0 (if (timerIoctl HZ MY_IOCTL_TIMER_MONITOR pid env s).2 < 0 then _ else _)) = _
  rw [timerIoctl_of_getProc_error hproc, if_pos hnegative]

theorem Watching.finish_ok (hs : Watching tasks released s) (hloaded : s.loaded = true) {pid : BitVec 64}
    {env : IoctlEnv} {p : MonitorProcess} {k : Tasks} (hproc : getProc env (pidArg pid) s.tasks = .ok (p, k))
    {o : UserOutput} (hfinish : (MainEnd.calls (TimerDriver.monitorTimer pid)).finish HZ true env s = (t, o)) :
    o = .ended 0 "" ∧ Watching (tasks ++ [p.task]) released t := by
  have hend : (MainEnd.calls (TimerDriver.monitorTimer pid)).finish HZ true env s =
      ((timerIoctl HZ MY_IOCTL_TIMER_MONITOR pid env s).1, UserOutput.ended 0
        (if (timerIoctl HZ MY_IOCTL_TIMER_MONITOR pid env s).2 < 0 then _ else _)) := rfl
  rw [hend, timerIoctl_of_getProc_ok hproc] at hfinish
  obtain ⟨rfl, rfl⟩ := Prod.mk.inj hfinish
  exact ⟨rfl, hs.monitor hloaded hproc rfl rfl rfl⟩

theorem finish_cases (hs : Watching tasks released s) (argv : List (List Char)) (rest : BitVec 64) {opened : Bool}
    (hopen : opened = true → s.loaded = true) (env : IoctlEnv) {o : UserOutput}
    (hfinish : (main argv rest).finish HZ opened env s = (t, o)) :
    (∃ task, (UserEvent.program argv rest opened env).Watches task ∧ o = .ended 0 "" ∧
      Watching (tasks ++ [task]) released t) ∨
    ((∀ task, ¬ (UserEvent.program argv rest opened env).Watches task) ∧
      ((UserEvent.program argv rest opened env).IsMonitor → o ≠ .ended 0 "") ∧ Watching tasks released t) := by
  by_cases hargv : ∃ name letters text, argv = [name, 'p' :: letters, text]
  · obtain ⟨name, letters, text, rfl⟩ := hargv
    simp only [watches_iff]
    cases hstoi : stoi text with
    | error e =>
      right
      rw [main_monitor_error hstoi] at hfinish
      obtain ⟨rfl, rfl⟩ := Prod.mk.inj hfinish
      exact ⟨by simp, by simp, hs⟩
    | ok pid =>
      have hint := (Strtol.stoi_eq_ok_iff.mp hstoi).2
      rw [main_monitor_ok hstoi] at hfinish
      cases opened with
      | false =>
        right
        obtain ⟨rfl, rfl⟩ := Prod.mk.inj hfinish
        exact ⟨by simp, fun _ => monitorTimer_failed _, hs⟩
      | true =>
        cases hproc : getProc env (pidArg (BitVec.ofInt 64 pid)) s.tasks with
        | error err =>
          right
          rw [finish_monitor_error hproc] at hfinish
          obtain ⟨rfl, rfl⟩ := Prod.mk.inj hfinish
          refine ⟨?_, fun _ => monitorTimer_failed _, hs⟩
          have herr := getProc_error hproc
          rw [pidArg_ofInt hint] at herr
          rintro task ⟨pid', hpid, -, htask, hkmalloc⟩
          obtain rfl := Except.ok.inj hpid
          rcases herr with ⟨hnone, -⟩ | ⟨hnone, -⟩
          · rw [htask] at hnone
            cases hnone
          · rw [hkmalloc] at hnone
            cases hnone
        | ok r =>
          left
          obtain ⟨htask, hkmalloc, -⟩ := getProc_ok hproc
          rw [pidArg_ofInt hint] at htask
          obtain ⟨ho, ht⟩ := hs.finish_ok (hopen rfl) hproc hfinish
          exact ⟨r.1.task, ⟨pid, rfl, rfl, htask, hkmalloc⟩, ho, ht⟩
  · right
    have hshape : ∀ name letters text, argv ≠ [name, 'p' :: letters, text] :=
      fun name letters text heq => hargv ⟨name, letters, text, heq⟩
    refine ⟨fun task ⟨name, letters, text, _, heq, _⟩ => hshape name letters text heq, ?_, ?_⟩
    · rintro ⟨name, letters, words, rfl⟩
      have hwords : words.length ≠ 1 := by
        intro hlen
        obtain ⟨text, rfl⟩ := List.length_eq_one_iff.mp hlen
        exact hshape name letters text rfl
      rw [main_monitor_argc hwords] at hfinish
      obtain ⟨-, rfl⟩ := Prod.mk.inj hfinish
      intro h
      exact absurd (UserOutput.ended.inj h).1 (by decide)
    · rcases main_not_monitor hshape rest with ⟨status, printed, hmain⟩ | ⟨e, hmain⟩ | ⟨call, hmain, hcmd⟩
      · rw [hmain] at hfinish
        obtain ⟨rfl, -⟩ := Prod.mk.inj hfinish
        exact hs
      · rw [hmain] at hfinish
        obtain ⟨rfl, -⟩ := Prod.mk.inj hfinish
        exact hs
      · rw [hmain] at hfinish
        cases opened with
        | false =>
          obtain ⟨rfl, -⟩ := Prod.mk.inj hfinish
          exact hs
        | true =>
          obtain ⟨rfl, -⟩ := Prod.mk.inj hfinish
          obtain ⟨hlist, htasks, hloaded⟩ := @timerIoctl_frame HZ call.cmd hcmd call.arg env s
          exact hs.keep hlist htasks hloaded

theorem Watching.expire (hs : Watching tasks released s) : Watching tasks released s.expire.1 := by
  have hloaded := expire_loaded s
  rcases expire_cases s with ⟨-, hlist, htasks⟩ | ⟨-, hlist, htasks⟩
  · obtain ⟨hkept, hreports, -, hrequests⟩ := scanList_eq s.dev.list s.tasks
    refine ⟨?_, ?_, ?_, ?_⟩
    · -- entries only move from the list to the reports
      refine List.Perm.trans (List.Perm.append_right released ?_) hs.entries
      rw [hlist, htasks, hkept, hreports]
      calc s.dev.list.filter (fun p => !s.tasks.dead p.task) ++
            (s.tasks.reports ++ s.dev.list.filter fun p => s.tasks.dead p.task)
        _ ~ s.dev.list.filter (fun p => !s.tasks.dead p.task) ++
            (s.dev.list.filter (fun p => s.tasks.dead p.task) ++ s.tasks.reports) :=
          List.perm_append_comm.append_left _
        _ = s.dev.list.filter (fun p => !s.tasks.dead p.task) ++ s.dev.list.filter (fun p => s.tasks.dead p.task) ++
            s.tasks.reports := (List.append_assoc _ _ _).symm
        _ ~ s.dev.list.filter (fun p => s.tasks.dead p.task) ++ s.dev.list.filter (fun p => !s.tasks.dead p.task) ++
            s.tasks.reports := List.perm_append_comm.append_right _
        _ ~ s.dev.list ++ s.tasks.reports := (List.filter_append_perm _ _).append_right _
    · rw [htasks, hrequests]
      exact hs.requests
    · rw [hloaded]
      exact hs.loaded
    · intro hunloaded
      rw [hloaded] at hunloaded
      rw [hlist, hkept, hs.unloaded hunloaded]
      rfl
  · exact hs.keep hlist htasks hloaded

theorem Watching.exit (hs : Watching tasks released s) (hloaded : s.loaded = true) :
    Watching tasks s.dev.list (deferredExit s) := by
  obtain ⟨-, hrequests, hreports⟩ := releaseList_frame s.dev.list s.tasks
  unfold deferredExit
  refine ⟨?_, hrequests.trans hs.requests, (fun h => nomatch h), fun _ => rfl⟩
  have hentries := hs.entries
  rw [hs.loaded hloaded, List.append_nil] at hentries
  rw [hreports, List.nil_append]
  exact List.perm_append_comm.trans hentries

theorem userStep_driver {e : TimerEvent} {o : UserOutput} (h : userStep HZ s (.driver e) = some (t, o)) :
    (∀ cmd arg env, e ≠ .ioctl cmd arg env) ∧ ∃ out, timerStep HZ s e = some (t, out) := by
  cases e with
  | ioctl cmd arg env => cases h
  | _ =>
    simp only [userStep, Option.map_eq_some_iff] at h
    obtain ⟨⟨u, out⟩, hstep, heq⟩ := h
    obtain ⟨rfl, -⟩ := Prod.mk.inj heq
    exact ⟨by simp, out, hstep⟩

theorem Watching.driver (hs : Watching tasks released s) {e : TimerEvent} {o : UserOutput}
    (hstep : userStep HZ s (.driver e) = some (t, o)) : ∃ released', Watching tasks released' t := by
  obtain ⟨hcall, out, hdriver⟩ := userStep_driver hstep
  rcases timerStep_cases hdriver with ⟨cmd, arg, env, rfl, -⟩ | ⟨-, -, rfl, -⟩ | ⟨-, -, rfl, -⟩ | ⟨task, -, rfl, -⟩ |
    ⟨-, hloaded, rfl, -⟩
  · exact (hcall cmd arg env rfl).elim
  · exact ⟨released, hs.expire⟩
  · exact ⟨released, hs.keep rfl rfl rfl⟩
  · exact ⟨released, hs.entries, hs.requests, hs.loaded, hs.unloaded⟩
  · exact ⟨s.dev.list, hs.exit hloaded⟩

end Step

/-! ### Runs -/

theorem user_accounted (HZ : Nat) (dead : Nat → Bool) : (user HZ dead).Invariant Accounted where
  init := (timer_accounted HZ dead).init
  step := by
    intro s t e o hs hstep
    cases e with
    | program argv rest opened env =>
      simp only [user, userStep] at hstep
      split_ifs at hstep
      have hfinish := Option.some.inj hstep
      cases hmain : main argv rest with
      | returns status printed =>
        rw [hmain] at hfinish
        obtain ⟨rfl, -⟩ := Prod.mk.inj hfinish
        exact hs
      | throws e =>
        rw [hmain] at hfinish
        obtain ⟨rfl, -⟩ := Prod.mk.inj hfinish
        exact hs
      | calls call =>
        rw [hmain] at hfinish
        cases opened with
        | false =>
          obtain ⟨rfl, -⟩ := Prod.mk.inj hfinish
          exact hs
        | true =>
          obtain ⟨rfl, -⟩ := Prod.mk.inj hfinish
          exact hs.ioctl HZ call.cmd call.arg env
    | driver e =>
      obtain ⟨-, out, hdriver⟩ := userStep_driver hstep
      exact (timer_accounted HZ dead).step hs hdriver

theorem run_watching {HZ : Nat} {dead : Nat → Bool} {es : List UserEvent} {s : Sys} {os : List UserOutput}
    (hrun : (user HZ dead).run es = some (s, os)) :
    ∃ tasks released, AskedFor es os tasks ∧ Watching tasks released s := by
  induction es using List.reverseRecOn generalizing s os with
  | nil =>
    obtain ⟨rfl, rfl⟩ := Prod.mk.inj (Option.some.inj hrun)
    exact ⟨[], [], .nil, List.Perm.nil, rfl, fun _ => rfl, fun h => nomatch h⟩
  | append_singleton es e ih =>
    obtain ⟨u, os', o, hpre, hstep, rfl⟩ := Machine.run_concat_eq_some _ |>.mp hrun
    obtain ⟨tasks, released, hwatched, hu⟩ := ih hpre
    cases e with
    | program argv rest opened env =>
      simp only [user, userStep] at hstep
      split_ifs at hstep with hclosed
      have hopen : opened = true → u.loaded = true := by
        intro hopened
        cases hloaded : u.loaded with
        | false => exact (hclosed ⟨hopened, hloaded⟩).elim
        | true => rfl
      rcases finish_cases hu argv rest hopen env (Option.some.inj hstep) with
        ⟨task, hwatches, rfl, hs⟩ | ⟨hnot, hprinted, hs⟩
      · exact ⟨tasks ++ [task], released, hwatched.watch hwatches, hs⟩
      · exact ⟨tasks, released, hwatched.other hnot hprinted, hs⟩
    | driver e =>
      obtain ⟨released', hs⟩ := hu.driver hstep
      exact ⟨tasks, released', hwatched.other (fun _ => id) False.elim, hs⟩

/-- The command line with this word behind the command, where there are the processes below `9`. -/
def commandLine (cmd text : String) (jiffies : BitVec 64) : UserEvent :=
  .program ["timer".toList, cmd.toList, text.toList] 0 true
    ⟨jiffies, fun pid => if pid < 9 then some pid.toNat else none, true⟩

/-- The second of these command lines means process `8`, and there is no process `9`. -/
def watchTwo : List UserEvent :=
  [commandLine "p" "7" 100, commandLine "pid" " +008th" 110, commandLine "p" "9" 120, .driver (.death 8), .driver .expire]

end DeviceDrivers.Timer
