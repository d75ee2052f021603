import DeviceDrivers.Lib.Clock
import DeviceDrivers.Lib.Machine

/-!
# The timer that arms itself

`KernelModules/deferred-mod/deferred.c`: a timer whose callback prints a message and arms the timer again. Loads,
unloads, expiries and the steps of the callback interleave with the clock. The messages come at least
`TIMER_TIMEOUT * HZ` jiffies apart, whatever the delays between the reading of `jiffies` and `mod_timer`, and however
often the clock has wrapped around (`message_rate`). Nothing but an unload stops them, and after an unload there is
neither a pending timer nor a callback: `del_timer_sync` waits for the callback and takes away the timer that it has
armed (`timer_until_exit`).
-/

namespace DeviceDrivers.Deferred

open Clock

def TIMER_TIMEOUT : Nat := 2

def MSG : String := "INCOMING INCOMING"

def message : String := "The message is: " ++ MSG ++ "\n"

/-- Where the module is: `timer_init` has computed the expiry time, or is past `mod_timer`. -/
inductive Phase (w : Nat)
  | unloaded
  | starting (expires : BitVec w)
  | loaded
  deriving DecidableEq

/-- Where `timer_callback` is: at its `pr_info`, at `jiffies`, at `mod_timer`. -/
inductive Callback (w : Nat)
  | idle
  | printing
  | reading
  | arming (expires : BitVec w)
  deriving DecidableEq

/-- The true time in jiffies, and the timer's expiry time if it is pending. -/
structure Periodic (w : Nat) where
  now : Nat
  phase : Phase w
  timer : Option (BitVec w)
  callback : Callback w
  deriving DecidableEq

inductive PeriodicEvent
  | tick
  | initRead
  | initArm
  | expire
  | print
  | read
  | arm
  | exit
  deriving DecidableEq

variable {w : Nat}

/-- `jiffies + TIMER_TIMEOUT * HZ`. -/
def expiresAt (w HZ now : Nat) : BitVec w := Clock.reading w now + BitVec.ofNat w (TIMER_TIMEOUT * HZ)

/-- The output is a line of the log. A timer does not expire while its callback runs, and `del_timer_sync` returns
when it does not. -/
def periodicStep (HZ : Nat) (s : Periodic w) : PeriodicEvent → Option (Periodic w × Option String)
  | .tick => some ({ s with now := s.now + 1 }, none)
  | .initRead =>
    match s.phase with
    | .unloaded => some ({ s with phase := .starting (expiresAt w HZ s.now) }, some "[LOG] timer module loaded\n")
    | _ => none
  | .initArm =>
    match s.phase with
    | .starting expires => some ({ s with phase := .loaded, timer := some expires }, none)
    | _ => none
  | .expire =>
    match s.timer, s.callback with
    | some expires, .idle =>
      if Reached (Clock.reading w s.now) expires then some ({ s with timer := none, callback := .printing }, none)
      else none
    | _, _ => none
  | .print =>
    match s.callback with
    | .printing => some ({ s with callback := .reading }, some message)
    | _ => none
  | .read =>
    match s.callback with
    | .reading => some ({ s with callback := .arming (expiresAt w HZ s.now) }, none)
    | _ => none
  | .arm =>
    match s.callback with
    | .arming expires => some ({ s with timer := some expires, callback := .idle }, none)
    | _ => none
  | .exit =>
    match s.phase, s.callback with
    | .loaded, .idle => some ({ s with phase := .unloaded, timer := none }, some "[LOG] timer_exit module has exited\n")
    | _, _ => none

def periodic (w HZ start : Nat) : Machine (Periodic w) PeriodicEvent (Option String) :=
  ⟨⟨start, .unloaded, none, .idle⟩, periodicStep HZ⟩

/-- The messages among the lines of the log. -/
def messages (os : List (Option String)) : Nat := os.count (some message)

/-- The ways of a step; only the callback prints the message. -/
inductive Moves (HZ : Nat) (s : Periodic w) : Periodic w → Option String → Prop
  | tick {o} (ho : o ≠ some message) : Moves HZ s { s with now := s.now + 1 } o
  | initRead {o} (hphase : s.phase = .unloaded) (ho : o ≠ some message) :
      Moves HZ s { s with phase := .starting (expiresAt w HZ s.now) } o
  | initArm {o expires} (hphase : s.phase = .starting expires) (ho : o ≠ some message) :
      Moves HZ s { s with phase := .loaded, timer := some expires } o
  | expire {o expires} (htimer : s.timer = some expires) (hcallback : s.callback = .idle)
      (hreached : Reached (Clock.reading w s.now) expires) (ho : o ≠ some message) :
      Moves HZ s { s with timer := none, callback := .printing } o
  | print (hcallback : s.callback = .printing) : Moves HZ s { s with callback := .reading } (some message)
  | read {o} (hcallback : s.callback = .reading) (ho : o ≠ some message) :
      Moves HZ s { s with callback := .arming (expiresAt w HZ s.now) } o
  | arm {o expires} (hcallback : s.callback = .arming expires) (ho : o ≠ some message) :
      Moves HZ s { s with timer := some expires, callback := .idle } o
  | exit {o} (hphase : s.phase = .loaded) (hcallback : s.callback = .idle) (ho : o ≠ some message) :
      Moves HZ s { s with phase := .unloaded, timer := none } o

theorem moves_of_step {HZ : Nat} {s t : Periodic w} {e : PeriodicEvent} {o : Option String}
    (h : periodicStep HZ s e = some (t, o)) : Moves HZ s t o := by
  cases e with
  | tick =>
    obtain ⟨rfl, rfl⟩ := Prod.mk.inj (Option.some.inj h)
    exact .tick (by simp)
  | initRead =>
    cases hphase : s.phase with
    | unloaded =>
      simp only [periodicStep, hphase] at h
      obtain ⟨rfl, rfl⟩ := Prod.mk.inj (Option.some.inj h)
      exact .initRead hphase (by decide)
    | starting expires => simp [periodicStep, hphase] at h
    | loaded => simp [periodicStep, hphase] at h
  | initArm =>
    cases hphase : s.phase with
    | starting expires =>
      simp only [periodicStep, hphase] at h
      obtain ⟨rfl, rfl⟩ := Prod.mk.inj (Option.some.inj h)
      exact .initArm hphase (by simp)
    | unloaded => simp [periodicStep, hphase] at h
    | loaded => simp [periodicStep, hphase] at h
  | expire =>
    simp only [periodicStep] at h
    split at h
    · rename_i expires htimer hcallback
      split_ifs at h with hreached
      obtain ⟨rfl, rfl⟩ := Prod.mk.inj (Option.some.inj h)
      exact .expire htimer hcallback hreached (by simp)
    · cases h
  | print =>
    cases hcallback : s.callback with
    | printing =>
      simp only [periodicStep, hcallback] at h
      obtain ⟨rfl, rfl⟩ := Prod.mk.inj (Option.some.inj h)
      exact .print hcallback
    | idle => simp [periodicStep, hcallback] at h
    | reading => simp [periodicStep, hcallback] at h
    | arming expires => simp [periodicStep, hcallback] at h
  | read =>
    cases hcallback : s.callback with
    | reading =>
      simp only [periodicStep, hcallback] at h
      obtain ⟨rfl, rfl⟩ := Prod.mk.inj (Option.some.inj h)
      exact .read hcallback (by simp)
    | idle => simp [periodicStep, hcallback] at h
    | printing => simp [periodicStep, hcallback] at h
    | arming expires => simp [periodicStep, hcallback] at h
  | arm =>
    cases hcallback : s.callback with
    | arming expires =>
      simp only [periodicStep, hcallback] at h
      obtain ⟨rfl, rfl⟩ := Prod.mk.inj (Option.some.inj h)
      exact .arm hcallback (by simp)
    | idle => simp [periodicStep, hcallback] at h
    | printing => simp [periodicStep, hcallback] at h
    | reading => simp [periodicStep, hcallback] at h
  | exit =>
    simp only [periodicStep] at h
    split at h
    · rename_i hphase hcallback
      obtain ⟨rfl, rfl⟩ := Prod.mk.inj (Option.some.inj h)
      exact .exit hphase hcallback (by decide)
    · cases h

/-! ### Pending or running -/

/-- While the module is loaded, either its timer is pending or its callback runs; otherwise neither. -/
structure Alive (s : Periodic w) : Prop where
  unloaded : s.phase ≠ .loaded → s.timer = none ∧ s.callback = .idle
  loaded : s.phase = .loaded → (s.timer ≠ none ↔ s.callback = .idle)

theorem Alive.moves {HZ : Nat} {s t : Periodic w} {o : Option String} (hs : Alive s) (h : Moves HZ s t o) :
    Alive t := by
  -- a callback that runs belongs to a loaded module
  have hloaded : s.callback ≠ .idle ∨ s.timer ≠ none → s.phase = .loaded := by
    intro hbusy
    by_contra hne
    obtain ⟨htimer, hidle⟩ := hs.unloaded hne
    exact hbusy.elim (fun h => h hidle) fun h => h htimer
  cases h with
  | tick ho => exact ⟨hs.unloaded, hs.loaded⟩
  | initRead hphase ho =>
    obtain ⟨htimer, hidle⟩ := hs.unloaded (by simp [hphase])
    exact ⟨fun _ => ⟨htimer, hidle⟩, by simp⟩
  | initArm hphase ho =>
    obtain ⟨-, hidle⟩ := hs.unloaded (by simp [hphase])
    exact ⟨by simp, by simp [hidle]⟩
  | expire htimer hcallback hreached ho =>
    have := hloaded (.inr (by simp [htimer]))
    exact ⟨by simp [this], by simp⟩
  | print hcallback =>
    have hphase := hloaded (.inl (by simp [hcallback]))
    have htimer := (hs.loaded hphase).not.mpr (by simp [hcallback])
    exact ⟨by simp [hphase], fun _ => iff_of_false htimer (by simp)⟩
  | read hcallback ho =>
    have hphase := hloaded (.inl (by simp [hcallback]))
    have htimer := (hs.loaded hphase).not.mpr (by simp [hcallback])
    exact ⟨by simp [hphase], fun _ => iff_of_false htimer (by simp)⟩
  | arm hcallback ho =>
    have hphase := hloaded (.inl (by simp [hcallback]))
    exact ⟨by simp [hphase], by simp⟩
  | exit hphase hcallback ho => exact ⟨fun _ => ⟨rfl, hcallback⟩, by simp⟩

theorem alive_invariant (w HZ start : Nat) : (periodic w HZ start).Invariant Alive where
  init := ⟨fun _ => ⟨rfl, rfl⟩, fun h => by cases h⟩
  step := fun hs hstep => hs.moves (moves_of_step hstep)

/-- However loads, unloads, expiries and callbacks interleave, a loaded module has its timer pending or its callback
running, and not both; one that is not loaded has neither, so that nothing runs in it after an unload. -/
theorem timer_until_exit {HZ start : Nat} {es : List PeriodicEvent} {s : Periodic w} {os : List (Option String)}
    (hrun : (periodic w HZ start).run es = some (s, os)) :
    (s.phase = .loaded → (s.timer ≠ none ↔ s.callback = .idle)) ∧
      (s.phase ≠ .loaded → s.timer = none ∧ s.callback = .idle ∧
        ∀ e t o, periodicStep HZ s e = some (t, o) → o ≠ some message ∧ t.callback = .idle) := by
  have hs := (alive_invariant w HZ start).run hrun
  refine ⟨hs.loaded, ?_⟩
  intro hphase
  obtain ⟨htimer, hidle⟩ := hs.unloaded hphase
  refine ⟨htimer, hidle, ?_⟩
  intro e t o hstep
  cases moves_of_step hstep with
  | tick ho => exact ⟨ho, hidle⟩
  | initRead h ho => exact ⟨ho, hidle⟩
  | initArm h ho => exact ⟨ho, hidle⟩
  | expire h => simp [htimer] at h
  | print h => simp [hidle] at h
  | read h => simp [hidle] at h
  | arm h => simp [hidle] at h
  | exit h => exact absurd h hphase

/-- The callback runs when the unload begins, and arms the timer once more. -/
def unloadWaits : List PeriodicEvent :=
  [.initRead, .initArm] ++ List.replicate 4 .tick ++ [.expire, .print, .read, .arm, .exit]

theorem timer_until_exit_unloadWaits :
    ∃ s os, (periodic 8 2 250).run unloadWaits = some (s, os) ∧ s.phase = .unloaded ∧ s.timer = none := by
  refine ⟨⟨254, .unloaded, none, .idle⟩, _, rfl, rfl, ?_⟩
  exact ((@timer_until_exit 8 2 250 unloadWaits ⟨254, .unloaded, none, .idle⟩ _ rfl).2 (by simp)).1

/-! ### How often the message comes -/

/-- A timer with this expiry time does not expire before `due`, from `now` on. -/
def NotBefore (expires : BitVec w) (now due : Nat) : Prop :=
  ∀ t, now ≤ t → Reached (Clock.reading w t) expires → due ≤ t

theorem NotBefore.mono {expires : BitVec w} {now now' due : Nat} (h : NotBefore expires now due) (hle : now ≤ now') :
    NotBefore expires now' due := fun t ht => h t (Nat.le_trans hle ht)

/-- The next message is not due before `due`; `period` is the time from one to the next. -/
structure Paced (period due : Nat) (s : Periodic w) : Prop where
  now : due ≤ s.now + period
  timer : ∀ expires, s.timer = some expires → NotBefore expires s.now due
  starting : ∀ expires, s.phase = .starting expires → NotBefore expires s.now due
  arming : ∀ expires, s.callback = .arming expires → NotBefore expires s.now due
  printing : s.callback = .printing → due ≤ s.now

section

variable {HZ due : Nat} {s t : Periodic w} {o : Option String}

theorem notBefore_expiresAt (hw : 1 < w) (hHZ : TIMER_TIMEOUT * HZ ≤ 2 ^ (w - 1)) {now : Nat}
    (hdue : due ≤ now + TIMER_TIMEOUT * HZ) : NotBefore (expiresAt w HZ now) now due := by
  intro t ht hreached
  exact Nat.le_trans hdue ((never_early_iff hw now _).mpr hHZ t ht hreached)

theorem paced_now (period : Nat) (s : Periodic w) : Paced period s.now s :=
  ⟨Nat.le_add_right _ _, fun _ _ _ ht _ => ht, fun _ _ _ ht _ => ht, fun _ _ _ ht _ => ht, fun _ => Nat.le_refl _⟩

theorem Paced.moves (hw : 1 < w) (hHZ : TIMER_TIMEOUT * HZ ≤ 2 ^ (w - 1)) (halive : Alive s)
    (hs : Paced (TIMER_TIMEOUT * HZ) due s) (h : Moves HZ s t o) :
    Paced (TIMER_TIMEOUT * HZ) (due + if o = some message then TIMER_TIMEOUT * HZ else 0) t := by
  have hnow := hs.now
  cases h with
  | tick ho =>
    rw [if_neg ho]
    refine ⟨by dsimp only; omega, ?_, ?_, ?_, ?_⟩
    · exact fun x hx => (hs.timer x hx).mono (Nat.le_succ _)
    · exact fun x hx => (hs.starting x hx).mono (Nat.le_succ _)
    · exact fun x hx => (hs.arming x hx).mono (Nat.le_succ _)
    · exact fun hx => Nat.le_succ_of_le (hs.printing hx)
  | initRead hphase ho =>
    rw [if_neg ho]
    refine ⟨hnow, hs.timer, ?_, hs.arming, hs.printing⟩
    rintro x ⟨⟩
    exact notBefore_expiresAt hw hHZ hnow
  | initArm hphase ho =>
    rw [if_neg ho]
    refine ⟨hnow, ?_, by simp, hs.arming, hs.printing⟩
    rintro x ⟨⟩
    exact hs.starting _ hphase
  | expire htimer hcallback hreached ho =>
    rw [if_neg ho]
    exact ⟨hnow, by simp, hs.starting, by simp, fun _ => hs.timer _ htimer s.now (Nat.le_refl _) hreached⟩
  | print hcallback =>
    rw [if_pos rfl]
    have hphase : s.phase = .loaded := by
      by_contra hne
      simp [(halive.unloaded hne).2] at hcallback
    have htimer : s.timer = none := by
      by_contra hne
      simp [(halive.loaded hphase).mp hne] at hcallback
    refine ⟨Nat.add_le_add_right (hs.printing hcallback) _, ?_, ?_, by simp, by simp⟩
    · intro x hx
      cases htimer.symm.trans hx
    · intro x hx
      cases hphase.symm.trans hx
  | read hcallback ho =>
    rw [if_neg ho]
    refine ⟨hnow, hs.timer, hs.starting, ?_, by simp⟩
    rintro x ⟨⟩
    exact notBefore_expiresAt hw hHZ hnow
  | arm hcallback ho =>
    rw [if_neg ho]
    refine ⟨hnow, ?_, hs.starting, by simp, by simp⟩
    rintro x ⟨⟩
    exact hs.arming _ hcallback
  | exit hphase hcallback ho =>
    rw [if_neg ho]
    exact ⟨hnow, by simp, by simp, hs.arming, hs.printing⟩

theorem messages_cons (o : Option String) (os : List (Option String)) :
    messages (o :: os) = messages os + if o = some message then 1 else 0 := by
  simp [messages, List.count_cons]

theorem Paced.runFrom (hw : 1 < w) (hHZ : TIMER_TIMEOUT * HZ ≤ 2 ^ (w - 1)) {start : Nat} {es : List PeriodicEvent}
    {os : List (Option String)} (halive : Alive s) (hs : Paced (TIMER_TIMEOUT * HZ) due s)
    (hrun : (periodic w HZ start).runFrom s es = some (t, os)) :
    Paced (TIMER_TIMEOUT * HZ) (due + messages os * (TIMER_TIMEOUT * HZ)) t := by
  induction es generalizing s due os with
  | nil =>
    obtain ⟨rfl, rfl⟩ := Prod.mk.inj (Option.some.inj hrun)
    simpa [messages] using hs
  | cons e es ih =>
    obtain ⟨u, o, os', hstep, hrest, rfl⟩ := (periodic w HZ start).runFrom_cons_eq_some.mp hrun
    have hmoves := moves_of_step hstep
    have hend := ih (halive.moves hmoves) (hs.moves hw hHZ halive hmoves) hrest
    have hsum : due + (if o = some message then TIMER_TIMEOUT * HZ else 0) + messages os' * (TIMER_TIMEOUT * HZ) =
        due + messages (o :: os') * (TIMER_TIMEOUT * HZ) := by
      rw [messages_cons]
      split_ifs
      · rw [Nat.add_mul, Nat.one_mul]
        omega
      · rw [Nat.add_zero, Nat.add_zero]
    rwa [hsum] at hend

/-- The first message comes `TIMER_TIMEOUT * HZ` jiffies after the load at the earliest. From any point of a run on,
at most one message comes at once, and each further one takes as long again. -/
theorem message_rate (hw : 1 < w) (hHZ : TIMER_TIMEOUT * HZ ≤ 2 ^ (w - 1)) {start : Nat}
    {es fs : List PeriodicEvent} {os ps : List (Option String)}
    (hrun : (periodic w HZ start).run es = some (s, os)) (hrest : (periodic w HZ start).runFrom s fs = some (t, ps)) :
    start + messages os * (TIMER_TIMEOUT * HZ) ≤ s.now ∧
      s.now + messages ps * (TIMER_TIMEOUT * HZ) ≤ t.now + TIMER_TIMEOUT * HZ := by
  have hinv := alive_invariant w HZ start
  constructor
  · have hfirst : Paced (TIMER_TIMEOUT * HZ) (start + TIMER_TIMEOUT * HZ) (periodic w HZ start).init :=
      ⟨Nat.le_refl _, by simp [periodic], by simp [periodic], by simp [periodic], by simp [periodic]⟩
    have := (hfirst.runFrom hw hHZ hinv.init hrun).now
    omega
  · exact ((paced_now _ s).runFrom hw hHZ (hinv.run hrun) hrest).now

end

/-- The clock of eight bits wraps around between the load and the second message. -/
theorem message_rate_wraps :
    ∃ s t os ps, (periodic 8 2 250).run ([.initRead, .initArm] ++ List.replicate 4 .tick ++ [.expire, .print]) =
        some (s, os) ∧
      (periodic 8 2 250).runFrom s ([.read, .arm] ++ List.replicate 4 .tick ++ [.expire, .print]) = some (t, ps) ∧
      messages os = 1 ∧ messages ps = 1 ∧ 250 + messages os * (TIMER_TIMEOUT * 2) ≤ s.now := by
  refine ⟨⟨254, .loaded, none, .reading⟩, ⟨258, .loaded, none, .reading⟩, _, _, rfl, rfl, by decide, by decide, ?_⟩
  exact (@message_rate 8 2 ⟨254, .loaded, none, .reading⟩ ⟨258, .loaded, none, .reading⟩ (by decide) (by decide) 250
    ([.initRead, .initArm] ++ List.replicate 4 .tick ++ [.expire, .print])
    ([.read, .arm] ++ List.replicate 4 .tick ++ [.expire, .print]) _ _ rfl rfl).1

end DeviceDrivers.Deferred
