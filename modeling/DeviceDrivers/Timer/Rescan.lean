import DeviceDrivers.Timer.References

/-!
# Which monitored processes are looked at again

A monitored process is only noticed by a scan, and a scan only happens when the timer is pending with
`flag = TIMER_TYPE_MONITOR`. Neither the handler nor the other commands see to that: after a scan the
timer is not armed again, `SET` and `ALLOC` overwrite `flag`, and `CANCEL` stops the timer. The list is
watched throughout a run exactly when these only happen where they leave nothing behind.
-/

namespace DeviceDrivers.Timer

/-- If a process is on the list, another scan is going to happen. -/
def Watched (s : Sys) : Prop := s.dev.list ≠ [] → s.dev.timer.isSome ∧ s.dev.flag = .monitor

/-- `SET`, `ALLOC` and `CANCEL` come while the list is empty, an expiry when every process on it is
dead. -/
def KeepsWatch (s : Sys) : TimerEvent → Prop
  | .ioctl cmd _ _ =>
    cmd ∈ [MY_IOCTL_TIMER_SET, MY_IOCTL_TIMER_ALLOC, MY_IOCTL_TIMER_CANCEL] → s.dev.list = []
  | .expire => ∀ p ∈ s.dev.list, s.tasks.dead p.task = true
  | _ => True

theorem watched_iff_nil {s : Sys} (h : ¬ (s.dev.timer.isSome ∧ s.dev.flag = .monitor)) :
    Watched s ↔ s.dev.list = [] := by
  unfold Watched
  constructor
  · intro hs
    by_contra hne
    exact h (hs hne)
  · intro hnil hne
    exact absurd hnil hne

theorem watched_ioctl {s : Sys} (hs : Watched s) (HZ : Nat) (cmd : BitVec 32) (arg : BitVec 64)
    (env : IoctlEnv) :
    Watched (timerIoctl HZ cmd arg env s).1 ↔ KeepsWatch s (.ioctl cmd arg env) := by
  obtain ⟨type, hcmd, heq⟩ | ⟨hcmd, heq⟩ | ⟨err, hcmd, -, heq⟩ | ⟨p, tasks, hcmd, -, heq⟩ | ⟨hcmd, heq⟩ :=
    ioctlRequest_cases HZ cmd arg env s
  · simp only [timerIoctl, heq]
    rw [watched_iff_nil]
    · unfold KeepsWatch
      have hmem : cmd ∈ [MY_IOCTL_TIMER_SET, MY_IOCTL_TIMER_ALLOC, MY_IOCTL_TIMER_CANCEL] := by
        rcases hcmd with ⟨rfl, -⟩ | ⟨rfl, -⟩ <;> decide
      exact (imp_iff_right hmem).symm
    · rintro ⟨-, hflag⟩
      rcases hcmd with ⟨-, rfl⟩ | ⟨-, rfl⟩ <;> cases hflag
  · simp only [timerIoctl, heq]
    rw [watched_iff_nil]
    · unfold KeepsWatch
      exact (imp_iff_right (by simp [hcmd])).symm
    · rintro ⟨hpending, -⟩
      cases hpending
  · simp only [timerIoctl, heq]
    refine iff_of_true hs fun hmem => ?_
    subst hcmd
    exact absurd hmem (by decide)
  · simp only [timerIoctl, heq]
    refine iff_of_true (fun _ => ⟨rfl, rfl⟩) fun hmem => ?_
    subst hcmd
    exact absurd hmem (by decide)
  · simp only [timerIoctl, heq]
    refine iff_of_true hs fun hmem => ?_
    have hsub : [MY_IOCTL_TIMER_SET, MY_IOCTL_TIMER_ALLOC, MY_IOCTL_TIMER_CANCEL] ⊆
        [MY_IOCTL_TIMER_SET, MY_IOCTL_TIMER_CANCEL, MY_IOCTL_TIMER_ALLOC, MY_IOCTL_TIMER_MONITOR] := by
      decide
    exact absurd (hsub hmem) hcmd

theorem watched_expire {s : Sys} (hs : Watched s) :
    Watched s.expire.1 ↔ KeepsWatch s .expire := by
  rw [watched_iff_nil (by simp [(expire_frame s).2])]
  unfold KeepsWatch
  obtain ⟨-, hlist, -⟩ | ⟨hflag, hlist, -⟩ := expire_cases s
  · rw [hlist, (scanList_eq s.dev.list s.tasks).1, List.filter_eq_nil_iff]
    simp
  · -- no process is on the list, or `flag` would be `TIMER_TYPE_MONITOR`
    have hnil : s.dev.list = [] := by
      by_contra hne
      exact hflag (hs hne).2
    rw [hlist, hnil]
    simp

theorem watched_step {HZ : Nat} {dead : Nat → Bool} {s t : Sys} {e : TimerEvent} {o : TimerOutput}
    (hs : Watched s) (hstep : (timer HZ dead).step s e = some (t, o)) :
    Watched t ↔ KeepsWatch s e := by
  obtain ⟨cmd, arg, env, rfl, -, rfl, -⟩ | ⟨rfl, -, rfl, -⟩ | ⟨rfl, -, rfl, -⟩ | ⟨task, rfl, rfl, -⟩ |
    ⟨rfl, -, rfl, -⟩ := timerStep_cases hstep
  · exact watched_ioctl hs HZ cmd arg env
  · exact watched_expire hs
  · exact iff_of_true hs trivial
  · exact iff_of_true hs trivial
  · exact iff_of_true (fun hne => absurd rfl hne) trivial

/-- A process on the list is going to be looked at again in every state of a run exactly when every
`SET`, `ALLOC` and `CANCEL` of the run finds the list empty, and every expiry finds all processes on it
dead. -/
theorem monitored_watched_iff (HZ : Nat) (dead : Nat → Bool) {es : List TimerEvent} {s : Sys}
    {os : List TimerOutput} (hrun : (timer HZ dead).run es = some (s, os)) :
    (timer HZ dead).Always Watched es ↔ (timer HZ dead).EveryStep KeepsWatch es :=
  Machine.always_iff_everyStep (Machine.invariant_true _) (fun hne => absurd rfl hne)
    (fun _ => watched_step) hrun

/-- A live process is monitored, and the timer expires once. -/
def monitorAndExpire : List TimerEvent :=
  [.ioctl MY_IOCTL_TIMER_MONITOR 5 ⟨0, fun _ => some 1, true⟩, .expire]

theorem monitorAndExpire_forgets {s : Sys} {os : List TimerOutput}
    (hrun : (timer 250 fun _ => false).run monitorAndExpire = some (s, os)) : ¬ Watched s := by
  obtain ⟨rfl, -⟩ := Prod.mk.inj (Option.some.inj hrun)
  intro h
  have hpending := (h (List.cons_ne_nil _ _)).1
  exact absurd hpending (by decide)

/-- After one scan the live process is still on the list, and no timer is pending. -/
theorem monitored_process_forgotten :
    ¬ (timer 250 fun _ => false).Always Watched monitorAndExpire := by
  intro h
  exact monitorAndExpire_forgets rfl (h.last rfl)

theorem monitored_watched_iff_live_process :
    ¬ (timer 250 fun _ => false).EveryStep KeepsWatch monitorAndExpire := by
  intro h
  have halways := (monitored_watched_iff 250 (fun _ => false) rfl).mpr h
  exact monitorAndExpire_forgets rfl (halways.last rfl)

end DeviceDrivers.Timer
