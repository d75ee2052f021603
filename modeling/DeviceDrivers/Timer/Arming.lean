import DeviceDrivers.Timer.Device

/-!
# Concurrent requests to one timer

A request writes `flag` and then arms the timer, in two steps and under no lock, and the handler reads
`flag` when the timer expires. A step of `arming` is one of the two writes of a request, an expiry, the
queued work or the death of a task; any number of calls are between their two writes. `armedBy` is the
type of the request that armed the timer last.

An expiry can be made to run another request's branch. It never is, in a run, exactly when no request
writes `flag` over a timer armed for another type, and none arms the timer after `flag` was
overwritten (`expiry_runs_request_iff`).
-/

namespace DeviceDrivers.Timer

/-- The device, the calls of `timer_ioctl` in the order they began, and the type of the last one that
armed the timer. -/
structure ArmSys where
  sys : Sys
  calls : List Request
  armedBy : TimerType

inductive ArmEvent
  | ioctl (cmd : BitVec 32) (arg : BitVec 64) (env : IoctlEnv)
  | arm (i : Nat) (jiffies : BitVec 64)
  | expire
  | work
  | death (task : Nat)

def armStep (HZ : Nat) (s : ArmSys) : ArmEvent → Option (ArmSys × TimerOutput)
  | .ioctl cmd arg env =>
    let r := ioctlRequest HZ cmd arg env s.sys
    some (⟨r.1, s.calls ++ [r.2], s.armedBy⟩, .silent)
  | .arm i jiffies =>
    match s.calls[i]? with
    | some (.arms type delay) =>
      some (⟨s.sys.modTimer (jiffies + delay), s.calls.set i (.returns 0), type⟩, .silent)
    | _ => none
  | .expire =>
    if s.sys.dev.timer.isSome then some ({ s with sys := s.sys.expire.1 }, .ran s.sys.expire.2)
    else none
  | .work =>
    if s.sys.dev.workQueue then some ({ s with sys.dev.workQueue := false }, .silent) else none
  | .death task => some ({ s with sys := s.sys.death task }, .silent)

def arming (HZ : Nat) (dead : Nat → Bool) : Machine ArmSys ArmEvent TimerOutput :=
  ⟨⟨deferredInit dead, [], .none⟩, armStep HZ⟩

/-- A call with nothing between its two writes is `timer_ioctl`. -/
theorem timerIoctl_alone (HZ : Nat) (dead : Nat → Bool) (s : ArmSys) (cmd : BitVec 32)
    (arg : BitVec 64) (env : IoctlEnv) :
    ∃ es t os, (arming HZ dead).runFrom s (.ioctl cmd arg env :: es) = some (t, os) ∧
      t.sys = (timerIoctl HZ cmd arg env s.sys).1 ∧
      t.calls = s.calls ++ [.returns (timerIoctl HZ cmd arg env s.sys).2] := by
  cases h : ioctlRequest HZ cmd arg env s.sys with
  | mk sys request =>
    cases request with
    | returns ret =>
      refine ⟨[], ⟨sys, s.calls ++ [.returns ret], s.armedBy⟩, [.silent], ?_, ?_, ?_⟩
      · simp [Machine.runFrom_cons, arming, armStep, h]
      · simp [timerIoctl, h]
      · simp [timerIoctl, h]
    | arms type delay =>
      refine ⟨[.arm s.calls.length env.jiffies],
        ⟨sys.modTimer (env.jiffies + delay), s.calls ++ [.returns 0], type⟩, [.silent, .silent],
        ?_, ?_, ?_⟩
      · simp [Machine.runFrom_cons, arming, armStep, h]
      · simp [timerIoctl, h]
      · simp [timerIoctl, h]

/-- The branch of `timer_handler` for a type of request. -/
def branch : TimerType → Branch
  | .none => .nothing
  | .set => .nothing
  | .alloc => .scheduleWork
  | .monitor => .scan

/-- If the timer expires now, the branch of the request that armed it runs. -/
def RunsRequest (HZ : Nat) (s : ArmSys) : Prop :=
  ∀ t o, armStep HZ s .expire = some (t, o) → o = .ran (branch s.armedBy)

/-- The type that a call of `timer_ioctl` writes to `flag`, if it does. -/
def requestType (cmd : BitVec 32) (arg : BitVec 64) (env : IoctlEnv) : Option TimerType :=
  if cmd = MY_IOCTL_TIMER_SET then some .set
  else if cmd = MY_IOCTL_TIMER_ALLOC then some .alloc
  else if cmd = MY_IOCTL_TIMER_MONITOR ∧ (env.pidTask (pidArg arg)).isSome ∧ env.kmalloc then
    some .monitor
  else none

/-- `flag` is not written over a timer that is pending for another type, and the timer is armed only
while `flag` has the type of the request. -/
def OwnsTimer (s : ArmSys) : ArmEvent → Prop
  | .ioctl cmd arg env =>
    ∀ type, requestType cmd arg env = some type → s.sys.dev.timer.isSome → s.armedBy = type
  | .arm i _ => ∀ type delay, s.calls[i]? = some (.arms type delay) → s.sys.dev.flag = type
  | _ => True

theorem expire_branch (s : Sys) : s.expire.2 = branch s.dev.flag := by
  unfold Sys.expire timerHandler
  cases s.dev.flag <;> rfl

theorem branch_inj {a b : TimerType} (ha : a ≠ .none) (hb : b ≠ .none) : branch a = branch b ↔ a = b := by
  cases a <;> cases b <;> simp_all [branch]

theorem runsRequest_iff {HZ : Nat} {s : ArmSys} :
    RunsRequest HZ s ↔ (s.sys.dev.timer.isSome → branch s.sys.dev.flag = branch s.armedBy) := by
  simp only [RunsRequest, armStep]
  constructor
  · intro h hpending
    have := h _ _ (if_pos hpending)
    rwa [expire_branch, TimerOutput.ran.injEq] at this
  · intro h t o hstep
    split_ifs at hstep with hpending
    obtain ⟨-, rfl⟩ := Prod.mk.inj (Option.some.inj hstep)
    rw [expire_branch, h hpending]

theorem ioctlRequest_spec (HZ : Nat) (cmd : BitVec 32) (arg : BitVec 64) (env : IoctlEnv) (s : Sys) :
    (∃ type delay, requestType cmd arg env = some type ∧ type ≠ .none ∧
      (ioctlRequest HZ cmd arg env s).2 = .arms type delay ∧
      (ioctlRequest HZ cmd arg env s).1.dev.flag = type ∧
      (ioctlRequest HZ cmd arg env s).1.dev.timer = s.dev.timer) ∨
    (∃ ret, requestType cmd arg env = none ∧ (ioctlRequest HZ cmd arg env s).2 = .returns ret ∧
      (ioctlRequest HZ cmd arg env s).1.dev.flag = s.dev.flag ∧
      ((ioctlRequest HZ cmd arg env s).1.dev.timer = s.dev.timer ∨
        (ioctlRequest HZ cmd arg env s).1.dev.timer = none)) := by
  obtain ⟨type, hcmd, heq⟩ | ⟨rfl, heq⟩ | ⟨err, rfl, herr, heq⟩ | ⟨p, tasks, rfl, hproc, heq⟩ |
    ⟨hcmd, heq⟩ := ioctlRequest_cases HZ cmd arg env s
  · left
    rw [heq]
    refine ⟨type, arg * BitVec.ofNat 64 HZ, ?_, ?_, rfl, rfl, rfl⟩
    · unfold requestType
      rcases hcmd with ⟨rfl, rfl⟩ | ⟨rfl, rfl⟩
      · exact if_pos rfl
      · rw [if_neg (by decide), if_pos rfl]
    · rcases hcmd with ⟨-, rfl⟩ | ⟨-, rfl⟩ <;> decide
  · right
    rw [heq]
    refine ⟨0, ?_, rfl, rfl, .inr rfl⟩
    unfold requestType
    rw [if_neg (by decide), if_neg (by decide), if_neg (fun h => absurd h.1 (by decide))]
  · right
    rw [heq]
    refine ⟨err, ?_, rfl, rfl, .inl rfl⟩
    unfold requestType
    rw [if_neg (by decide), if_neg (by decide), if_neg]
    rintro ⟨-, htask, hkmalloc⟩
    rcases getProc_error herr with ⟨hnone, -⟩ | ⟨hfalse, -⟩
    · simp [hnone] at htask
    · simp [hfalse] at hkmalloc
  · left
    rw [heq]
    obtain ⟨htask, hkmalloc, -, -⟩ := getProc_ok hproc
    refine ⟨.monitor, BitVec.ofNat 64 HZ, ?_, by decide, rfl, rfl, rfl⟩
    unfold requestType
    rw [if_neg (by decide), if_neg (by decide), if_pos]
    exact ⟨rfl, by rw [htask]; rfl, hkmalloc⟩
  · right
    rw [heq]
    refine ⟨0, ?_, rfl, rfl, .inl rfl⟩
    unfold requestType
    rw [if_neg (fun h => hcmd (by simp [h])), if_neg (fun h => hcmd (by simp [h])),
      if_neg (fun h => hcmd (by simp [h.1]))]

theorem armStep_cases {HZ : Nat} {s t : ArmSys} {e : ArmEvent} {o : TimerOutput}
    (h : armStep HZ s e = some (t, o)) :
    (∃ cmd arg env, e = .ioctl cmd arg env ∧ t = ⟨(ioctlRequest HZ cmd arg env s.sys).1,
      s.calls ++ [(ioctlRequest HZ cmd arg env s.sys).2], s.armedBy⟩) ∨
    (∃ i jiffies type delay, e = .arm i jiffies ∧ s.calls[i]? = some (.arms type delay) ∧
      t = ⟨s.sys.modTimer (jiffies + delay), s.calls.set i (.returns 0), type⟩) ∨
    (e = .expire ∧ t = { s with sys := s.sys.expire.1 }) ∨
    (e = .work ∧ t = { s with sys.dev.workQueue := false }) ∨
    (∃ task, e = .death task ∧ t = { s with sys := s.sys.death task }) := by
  cases e with
  | ioctl cmd arg env =>
    obtain ⟨rfl, -⟩ := Prod.mk.inj (Option.some.inj h)
    left
    exact ⟨cmd, arg, env, rfl, rfl⟩
  | arm i jiffies =>
    simp only [armStep] at h
    split at h
    · next type delay hi =>
      obtain ⟨rfl, -⟩ := Prod.mk.inj (Option.some.inj h)
      right; left
      exact ⟨i, jiffies, type, delay, rfl, hi, rfl⟩
    · simp at h
  | expire =>
    simp only [armStep] at h
    split_ifs at h
    obtain ⟨rfl, -⟩ := Prod.mk.inj (Option.some.inj h)
    right; right; left
    exact ⟨rfl, rfl⟩
  | work =>
    simp only [armStep] at h
    split_ifs at h
    obtain ⟨rfl, -⟩ := Prod.mk.inj (Option.some.inj h)
    right; right; right; left
    exact ⟨rfl, rfl⟩
  | death task =>
    obtain ⟨rfl, -⟩ := Prod.mk.inj (Option.some.inj h)
    right; right; right; right
    exact ⟨task, rfl, rfl⟩

/-! ### The invariant -/

/-- Requests have a type, and `flag` has one from the first request on. -/
structure Typed (s : ArmSys) : Prop where
  pending : s.sys.dev.timer.isSome → s.armedBy ≠ .none ∧ s.sys.dev.flag ≠ .none
  arming : ∀ type delay, .arms type delay ∈ s.calls → type ≠ .none ∧ s.sys.dev.flag ≠ .none

theorem Typed.ioctl {s : ArmSys} (hs : Typed s) (HZ : Nat) (cmd : BitVec 32) (arg : BitVec 64)
    (env : IoctlEnv) :
    Typed ⟨(ioctlRequest HZ cmd arg env s.sys).1, s.calls ++ [(ioctlRequest HZ cmd arg env s.sys).2],
      s.armedBy⟩ := by
  obtain ⟨type, delay, -, htype, hrequest, hflag, htimer⟩ | ⟨ret, -, hrequest, hflag, htimer⟩ :=
    ioctlRequest_spec HZ cmd arg env s.sys
  · refine ⟨?_, ?_⟩
    · intro hpending
      rw [htimer] at hpending
      exact ⟨(hs.pending hpending).1, hflag ▸ htype⟩
    · intro type' delay' hmem
      rw [hrequest, List.mem_append, List.mem_singleton] at hmem
      refine ⟨?_, hflag ▸ htype⟩
      rcases hmem with hmem | heq
      · exact (hs.arming type' delay' hmem).1
      · exact (Request.arms.inj heq).1 ▸ htype
  · refine ⟨?_, ?_⟩
    · intro hpending
      rcases htimer with htimer | htimer
      · rw [htimer] at hpending
        exact hflag ▸ hs.pending hpending
      · simp [htimer] at hpending
    · intro type' delay' hmem
      rw [hrequest, List.mem_append, List.mem_singleton] at hmem
      rcases hmem with hmem | heq
      · exact hflag ▸ hs.arming type' delay' hmem
      · cases heq

theorem arming_typed (HZ : Nat) (dead : Nat → Bool) : (arming HZ dead).Invariant Typed where
  init := ⟨by simp [arming, deferredInit], by simp [arming]⟩
  step := by
    intro s t e o hs hstep
    obtain ⟨cmd, arg, env, -, rfl⟩ | ⟨i, jiffies, type, delay, -, hi, rfl⟩ | ⟨-, rfl⟩ | ⟨-, rfl⟩ |
      ⟨task, -, rfl⟩ := armStep_cases hstep
    · exact hs.ioctl HZ cmd arg env
    · refine ⟨fun _ => hs.arming type delay (List.mem_of_getElem? hi), ?_⟩
      intro type' delay' hmem
      rcases List.mem_or_eq_of_mem_set hmem with hmem | heq
      · exact hs.arming type' delay' hmem
      · cases heq
    · obtain ⟨hflag, htimer⟩ := expire_frame s.sys
      refine ⟨fun hpending => ?_, ?_⟩
      · simp [htimer] at hpending
      · rw [hflag]
        exact hs.arming
    · exact ⟨hs.pending, hs.arming⟩
    · exact ⟨hs.pending, hs.arming⟩

/-! ### The result -/

theorem runsRequest_ioctl {HZ : Nat} {s : ArmSys} (hs : Typed s) (hruns : RunsRequest HZ s)
    (cmd : BitVec 32) (arg : BitVec 64) (env : IoctlEnv) :
    RunsRequest HZ ⟨(ioctlRequest HZ cmd arg env s.sys).1,
      s.calls ++ [(ioctlRequest HZ cmd arg env s.sys).2], s.armedBy⟩ ↔
    OwnsTimer s (.ioctl cmd arg env) := by
  rw [runsRequest_iff] at hruns ⊢
  simp only [OwnsTimer]
  obtain ⟨type, delay, hwrites, htype, -, hflag, htimer⟩ | ⟨ret, hwrites, -, hflag, htimer⟩ :=
    ioctlRequest_spec HZ cmd arg env s.sys
  · -- `flag` is now `type`; the timer is as it was
    rw [hflag, htimer, hwrites]
    constructor
    · intro h type' heq hpending
      obtain rfl := Option.some.inj heq
      exact ((branch_inj htype (hs.pending hpending).1).mp (h hpending)).symm
    · intro h hpending
      rw [h type rfl hpending]
  · rw [hwrites]
    refine iff_of_true (fun hpending => ?_) (by simp)
    rw [hflag]
    rcases htimer with htimer | htimer
    · exact hruns (htimer ▸ hpending)
    · simp [htimer] at hpending

theorem runsRequest_step {HZ : Nat} {dead : Nat → Bool} {s t : ArmSys} {e : ArmEvent} {o : TimerOutput}
    (hs : Typed s) (hruns : RunsRequest HZ s) (hstep : (arming HZ dead).step s e = some (t, o)) :
    RunsRequest HZ t ↔ OwnsTimer s e := by
  obtain ⟨cmd, arg, env, rfl, rfl⟩ | ⟨i, jiffies, type, delay, rfl, hi, rfl⟩ | ⟨rfl, rfl⟩ | ⟨rfl, rfl⟩ |
    ⟨task, rfl, rfl⟩ := armStep_cases hstep
  · exact runsRequest_ioctl hs hruns cmd arg env
  · obtain ⟨htype, hflag⟩ := hs.arming type delay (List.mem_of_getElem? hi)
    have hbranch : branch s.sys.dev.flag = branch type ↔ s.sys.dev.flag = type :=
      branch_inj hflag htype
    rw [runsRequest_iff]
    unfold OwnsTimer
    constructor
    · intro h type' delay' heq
      rw [hi] at heq
      obtain ⟨rfl, -⟩ := Request.arms.inj (Option.some.inj heq)
      exact hbranch.mp (h rfl)
    · intro h _
      exact hbranch.mpr (h type delay hi)
  · refine iff_of_true ?_ trivial
    rw [runsRequest_iff]
    intro hpending
    simp [(expire_frame s.sys).2] at hpending
  · rw [runsRequest_iff] at hruns ⊢
    exact iff_of_true hruns trivial
  · rw [runsRequest_iff] at hruns ⊢
    exact iff_of_true hruns trivial

/-- An expiry would run the branch of the request that armed the timer in every state of a run exactly
when in every step of the run a request writes `flag` only while the timer is not pending for another
type, and arms the timer only while `flag` is still its own type. -/
theorem expiry_runs_request_iff (HZ : Nat) (dead : Nat → Bool) {es : List ArmEvent} {s : ArmSys}
    {os : List TimerOutput} (hrun : (arming HZ dead).run es = some (s, os)) :
    (arming HZ dead).Always (RunsRequest HZ) es ↔ (arming HZ dead).EveryStep OwnsTimer es :=
  Machine.always_iff_everyStep (arming_typed HZ dead) (runsRequest_iff.mpr fun h => by cases h)
    runsRequest_step hrun

/-- A timer armed by `SET`, and an `ALLOC` that has written `flag` but not armed the timer. -/
def allocOverSet : List ArmEvent :=
  [.ioctl MY_IOCTL_TIMER_SET 5 ⟨0, fun _ => none, true⟩, .arm 0 0,
    .ioctl MY_IOCTL_TIMER_ALLOC 5 ⟨10, fun _ => none, true⟩]

theorem allocOverSet_schedules {s : ArmSys} {os : List TimerOutput}
    (hrun : (arming 250 fun _ => false).run allocOverSet = some (s, os)) : ¬ RunsRequest 250 s := by
  obtain ⟨rfl, -⟩ := Prod.mk.inj (Option.some.inj hrun)
  intro h
  exact absurd (h _ (.ran .scheduleWork) rfl) (by decide)

/-- The expiry of a timer armed by `SET` schedules the blocking work. -/
theorem set_timer_schedules_work :
    ¬ (arming 250 fun _ => false).Always (RunsRequest 250) allocOverSet := by
  intro h
  exact allocOverSet_schedules rfl (h.last rfl)

theorem expiry_runs_request_iff_allocOverSet :
    ¬ (arming 250 fun _ => false).EveryStep OwnsTimer allocOverSet := by
  intro h
  have halways := (expiry_runs_request_iff 250 (fun _ => false) rfl).mpr h
  exact allocOverSet_schedules rfl (halways.last rfl)

end DeviceDrivers.Timer
