import DeviceDrivers.Lib.Clock
import DeviceDrivers.Timer.Arming

/-!
# When the timer fires

The device beside the true time. `jiffies` is the reading of a clock of `64` bits, and a pending timer
expires as soon as the signed difference of `jiffies` and its expiry time is not negative. `timer_ioctl`
computes the expiry time from `arg * HZ` modulo `2 ^ 64`, with no check of `arg`: the handler never runs
before `arg * HZ` jiffies have passed exactly when this product, computed without a bound, is at most
`2 ^ 63` (`never_early_iff_product`).
-/

namespace DeviceDrivers.Timer

open Clock

/-- The device and the true time in jiffies. -/
structure Clocked where
  sys : Sys
  now : Nat

inductive ClockEvent
  | tick
  | event (e : TimerEvent)

/-- A call reads the clock, and the timer expires only once its time is reached. -/
def Clocked.allows (c : Clocked) : TimerEvent → Bool
  | .ioctl _ _ env => env.jiffies = reading 64 c.now
  | .expire => c.sys.dev.timer.any fun expires => Reached (reading 64 c.now) expires
  | _ => true

def clockedStep (HZ : Nat) (c : Clocked) : ClockEvent → Option (Clocked × TimerOutput)
  | .tick => some (⟨c.sys, c.now + 1⟩, .silent)
  | .event e =>
    if c.allows e then (timerStep HZ c.sys e).map fun r => (⟨r.1, c.now⟩, r.2) else none

/-- Runs from `c`. -/
def clocked (HZ : Nat) (c : Clocked) : Machine Clocked ClockEvent TimerOutput := ⟨c, clockedStep HZ⟩

/-- The event arms the timer. -/
def ClockEvent.Arms : ClockEvent → Prop
  | .event (.ioctl cmd arg env) => (requestType cmd arg env).isSome
  | _ => False

/-- As long as the timer is not armed again, `timer_handler` does not run before the deadline. -/
def NeverEarly (HZ : Nat) (c : Clocked) (deadline : Nat) : Prop :=
  ∀ es : List ClockEvent, (∀ e ∈ es, ¬ e.Arms) →
    (clocked HZ c).EveryStep
      (fun s e => ∀ t branch, clockedStep HZ s e = some (t, .ran branch) → deadline ≤ s.now) es

/-! ### One step -/

theorem clockedStep_ran {HZ : Nat} {c t : Clocked} {e : ClockEvent} {branch : Branch}
    (h : clockedStep HZ c e = some (t, .ran branch)) :
    ∃ expires, c.sys.dev.timer = some expires ∧ Reached (reading 64 c.now) expires := by
  cases e with
  | tick => cases h
  | event e =>
    unfold clockedStep at h
    dsimp only at h
    split_ifs at h with hallows
    obtain ⟨⟨s, o⟩, hstep, heq⟩ := Option.map_eq_some_iff.mp h
    obtain ⟨-, rfl⟩ := Prod.mk.inj heq
    rcases timerStep_cases hstep with ⟨cmd, arg, env, rfl, -, -, ho⟩ | ⟨rfl, -⟩ | ⟨-, -, -, ho⟩ |
      ⟨_, -, -, ho⟩ | ⟨-, -, -, ho⟩
    · cases ho
    · exact (Option.any_eq_true _ _).mp hallows |>.imp fun expires h => ⟨h.1, of_decide_eq_true h.2⟩
    · cases ho
    · cases ho
    · cases ho

theorem timerStep_timer {HZ : Nat} {s t : Sys} {e : TimerEvent} {o : TimerOutput}
    (hstep : timerStep HZ s e = some (t, o)) (harms : ¬ (ClockEvent.event e).Arms) :
    t.dev.timer = s.dev.timer ∨ t.dev.timer = none := by
  rcases timerStep_cases hstep with ⟨cmd, arg, env, rfl, -, rfl, -⟩ | ⟨rfl, -, rfl, -⟩ | ⟨-, -, rfl, -⟩ |
    ⟨_, -, rfl, -⟩ | ⟨-, -, rfl, -⟩
  · rcases ioctlRequest_spec HZ cmd arg env s with ⟨type, delay, htype, -⟩ | ⟨ret, -, hret, -, htimer⟩
    · exact (harms (Option.isSome_iff_exists.mpr ⟨type, htype⟩)).elim
    · have hsys : (timerIoctl HZ cmd arg env s).1 = (ioctlRequest HZ cmd arg env s).1 := by
        unfold timerIoctl
        rw [← Prod.mk.eta (p := ioctlRequest HZ cmd arg env s), hret]
      rw [hsys]
      exact htimer
  · right
    exact (expire_frame s).2
  · left
    rfl
  · left
    rfl
  · right
    rfl

/-- The timer is the one that was armed at `start`, or not pending. -/
structure ArmedAt (start : Nat) (expires : BitVec 64) (c : Clocked) : Prop where
  later : start ≤ c.now
  timer : c.sys.dev.timer = some expires ∨ c.sys.dev.timer = none

theorem ArmedAt.step {HZ start : Nat} {expires : BitVec 64} {c t : Clocked} {e : ClockEvent}
    {o : TimerOutput} (hc : ArmedAt start expires c) (harms : ¬ e.Arms)
    (hstep : clockedStep HZ c e = some (t, o)) : ArmedAt start expires t := by
  cases e with
  | tick =>
    obtain ⟨rfl, -⟩ := Prod.mk.inj (Option.some.inj hstep)
    exact ⟨Nat.le_succ_of_le hc.later, hc.timer⟩
  | event e =>
    unfold clockedStep at hstep
    dsimp only at hstep
    split_ifs at hstep
    obtain ⟨⟨s, o'⟩, htimer, heq⟩ := Option.map_eq_some_iff.mp hstep
    obtain ⟨rfl, -⟩ := Prod.mk.inj heq
    refine ⟨hc.later, ?_⟩
    rcases timerStep_timer htimer harms with hsame | hnone
    · rw [hsame]
      exact hc.timer
    · exact .inr hnone

/-! ### Runs -/

theorem armedAt_always {HZ : Nat} {c : Clocked} {expires : BitVec 64}
    (hc : c.sys.dev.timer = some expires) {es : List ClockEvent} (hes : ∀ e ∈ es, ¬ e.Arms) :
    (clocked HZ c).Always (ArmedAt c.now expires) es := by
  have hinit : ArmedAt c.now expires (clocked HZ c).init := ⟨le_rfl, .inl hc⟩
  exact Machine.always_of_everyStep hinit (fun hs harms hstep => hs.step harms hstep)
    (Machine.everyStep_of_forall hes)

theorem run_ticks (HZ : Nat) (c : Clocked) (k : Nat) :
    (clocked HZ c).run (List.replicate k .tick) =
      some (⟨c.sys, c.now + k⟩, List.replicate k .silent) := by
  induction k with
  | zero => rfl
  | succ k ih =>
    rw [List.replicate_succ', List.replicate_succ']
    exact (clocked HZ c).run_concat_eq_some.mpr ⟨_, _, _, ih, rfl, rfl⟩

theorem exists_expiry {HZ : Nat} {c : Clocked} {expires : BitVec 64}
    (hc : c.sys.dev.timer = some expires) (hreached : Reached (reading 64 c.now) expires) :
    ∃ t branch, clockedStep HZ c (.event .expire) = some (t, .ran branch) := by
  have hallows : c.allows .expire := by simp [Clocked.allows, hc, hreached]
  refine ⟨⟨c.sys.expire.1, c.now⟩, c.sys.expire.2, ?_⟩
  unfold clockedStep
  simp [hallows, timerStep, hc]

theorem armed_neverEarly_iff (HZ n : Nat) {c : Clocked}
    (hc : c.sys.dev.timer = some (reading 64 c.now + BitVec.ofNat 64 n)) :
    NeverEarly HZ c (c.now + n) ↔ n ≤ 2 ^ 63 := by
  rw [← @never_early_iff 64 (by decide) c.now n]
  constructor
  · intro h t ht hreached
    -- the ticks up to `t`, and the expiry
    obtain ⟨k, rfl⟩ := Nat.exists_eq_add_of_le ht
    obtain ⟨s, branch, hstep⟩ := @exists_expiry HZ ⟨c.sys, c.now + k⟩ _ hc hreached
    refine h (List.replicate k .tick ++ [.event .expire]) ?_ _ _ _ _ (List.prefix_refl _)
      (run_ticks HZ c k) s branch hstep
    intro e he
    rcases List.mem_append.mp he with he | he
    · obtain rfl := List.eq_of_mem_replicate he
      exact id
    · obtain rfl := List.mem_singleton.mp he
      exact id
  · intro h es hes pre e s os hpre hrun t branch hstep
    have harmed := armedAt_always hc hes pre s os ((List.prefix_append _ _).trans hpre) hrun
    obtain ⟨expires, hpending, hreached⟩ := clockedStep_ran hstep
    rcases harmed.timer with hsame | hnone
    · obtain rfl := Option.some.inj (hpending.symm.trans hsame)
      exact h s.now harmed.later hreached
    · rw [hpending] at hnone
      cases hnone

theorem timerIoctl_timer {HZ : Nat} {cmd : BitVec 32} {arg : BitVec 64} {env : IoctlEnv} {s : Sys}
    (hcmd : cmd = MY_IOCTL_TIMER_SET ∨ cmd = MY_IOCTL_TIMER_ALLOC) :
    (timerIoctl HZ cmd arg env s).1.dev.timer =
      some (env.jiffies + BitVec.ofNat 64 (arg.toNat * HZ)) := by
  have hproduct : arg * BitVec.ofNat 64 HZ = BitVec.ofNat 64 (arg.toNat * HZ) := by
    rw [BitVec.ofNat_mul, BitVec.ofNat_toNat, BitVec.setWidth_eq]
  unfold timerIoctl
  rw [← hproduct]
  rcases hcmd with rfl | rfl
  · rfl
  · rfl

/-- After a `SET` or an `ALLOC` the handler does not run before `arg * HZ` jiffies have passed, unless the
timer is armed again, exactly when `arg * HZ` is at most `2 ^ 63`. -/
theorem never_early_iff_product (HZ : Nat) (s : Sys) (now : Nat) (cmd : BitVec 32) (arg : BitVec 64)
    (env : IoctlEnv) (hcmd : cmd = MY_IOCTL_TIMER_SET ∨ cmd = MY_IOCTL_TIMER_ALLOC)
    (hjiffies : env.jiffies = reading 64 now) :
    NeverEarly HZ ⟨(timerIoctl HZ cmd arg env s).1, now⟩ (now + arg.toNat * HZ) ↔
      arg.toNat * HZ ≤ 2 ^ 63 := by
  apply armed_neverEarly_iff
  rw [timerIoctl_timer hcmd, hjiffies]

/-- Ten seconds. -/
theorem never_early_iff_product_ten :
    NeverEarly 250 ⟨(timerIoctl 250 MY_IOCTL_TIMER_SET 10 ⟨reading 64 7, fun _ => none, true⟩
        (deferredInit fun _ => false)).1, 7⟩ (7 + 10 * 250) ↔ 10 * 250 ≤ 2 ^ 63 :=
  never_early_iff_product 250 _ 7 MY_IOCTL_TIMER_SET 10 _ (.inl rfl) rfl

/-- With the largest argument the time to expire lies `250` jiffies back. -/
theorem huge_argument_fires_early :
    ¬ NeverEarly 250 ⟨(timerIoctl 250 MY_IOCTL_TIMER_SET (BitVec.ofNat 64 (2 ^ 64 - 1))
        ⟨reading 64 0, fun _ => none, true⟩ (deferredInit fun _ => false)).1, 0⟩ (0 + (2 ^ 64 - 1) * 250) := by
  rw [@armed_neverEarly_iff 250 ((2 ^ 64 - 1) * 250) ⟨_, 0⟩ rfl]
  decide

end DeviceDrivers.Timer
