import DeviceDrivers.Lib.SafeWalk
import DeviceDrivers.Timer.References

/-!
# Unloading the timer driver

`deferred_exit` against a `timer_handler` that may already be running, one step at a time. `del_timer`
does not wait for the handler, and the release of the list does not take its lock: a handler that is
still running when `cancel_work_sync` is done can queue work again, walk a list that is being freed, and
outlive the module. If the handler is idle at that moment, nothing can go wrong any more
(`unload_quiescent`).
-/

namespace DeviceDrivers.Timer

/-- The points of `timer_handler`: about to read `flag`, to call `schedule_work`, to take the lock, or
in the loop. -/
inductive HandlerPc
  | idle
  | readFlag
  | scheduleWork
  | lock
  | visit (w : Walk MonitorProcess)

/-- A handler in its loop stands somewhere in the list. -/
def HandlerPc.In (pc : HandlerPc) (list : List MonitorProcess) : Prop := ∀ w, pc = .visit w → w.At list

/-- The points of `deferred_exit`. -/
inductive ExitPc
  | delTimer
  | cancelWork
  | enterLoop
  | visit (w : Walk MonitorProcess)
  | returned

/-- `timer` says that the timer is pending. `released` is the entries in the order of their release;
`faulted` is set when an entry is touched after its release. -/
structure Teardown where
  list : List MonitorProcess
  dead : Nat → Bool
  flag : TimerType
  timer : Bool
  queued : Bool
  running : Bool
  handler : HandlerPc
  exit : ExitPc
  released : List MonitorProcess
  faulted : Bool

namespace Teardown

/-- The driver is about to be unloaded, with the handler at `pc` and the work running or not. -/
def start (s : Sys) (pc : HandlerPc) (running : Bool) : Teardown :=
  ⟨s.dev.list, s.tasks.dead, s.dev.flag, s.dev.timer.isSome, s.dev.workQueue, running, pc, .delTimer, [],
    false⟩

/-- `put_task_struct`, `list_del` and `kfree` -/
def release (s : Teardown) (p : MonitorProcess) : Teardown :=
  { s with list := s.list.erase p, released := s.released ++ [p] }

/-- A read of the entry `p`. -/
def touch (s : Teardown) (p : MonitorProcess) : Teardown :=
  { s with faulted := s.faulted || !s.list.contains p }

/-- A round of the handler's loop, at the entry `p`. -/
def handlerRound (s : Teardown) (w : Walk MonitorProcess) (p : MonitorProcess) : Teardown :=
  let s := s.touch p
  let s := if s.dead p.task then s.release p else s
  match w.advance s.list with
  | none => { s with faulted := true }
  | some w' => { s with handler := .visit w' }

/-- A round of the loop of `deferred_exit`. -/
def exitRound (s : Teardown) (w : Walk MonitorProcess) (p : MonitorProcess) : Teardown :=
  let s := (s.touch p).release p
  match w.advance s.list with
  | none => { s with faulted := true }
  | some w' => { s with exit := .visit w' }

/-- The next step of `timer_handler`; a round of its loop is one step. -/
def handlerStep (s : Teardown) : Option Teardown :=
  match s.handler with
  | .idle => none
  | .readFlag =>
    match s.flag with
    | .alloc => some { s with handler := .scheduleWork }
    | .monitor => some { s with handler := .lock }
    | _ => some { s with handler := .idle }
  | .scheduleWork => some { s with queued := true, handler := .idle }
  | .lock => some { s with handler := .visit (Walk.first s.list) }
  | .visit w =>
    match w.pos with
    | none => some { s with handler := .idle }
    | some p => some (s.handlerRound w p)

/-- The next step of `deferred_exit`. `cancel_work_sync` waits for running work. -/
def exitStep (s : Teardown) : Option Teardown :=
  match s.exit with
  | .delTimer => some { s with timer := false, exit := .cancelWork }
  | .cancelWork => if s.running then none else some { s with queued := false, exit := .enterLoop }
  | .enterLoop => some { s with exit := .visit (Walk.first s.list) }
  | .visit w =>
    match w.pos with
    | none => some { s with exit := .returned }
    | some p => some (s.exitRound w p)
  | .returned => none

end Teardown

inductive TeardownEvent
  | expire
  | handler
  | exit
  | workBegins
  | workEnds
  | death (task : Nat)

/-- There is no step past a fault. -/
def teardownStep (s : Teardown) (e : TeardownEvent) : Option (Teardown × Unit) :=
  if s.faulted then none
  else
    match e with
    | .expire =>
      match s.timer, s.handler with
      | true, .idle => some ({ s with timer := false, handler := .readFlag }, ())
      | _, _ => none
    | .handler => s.handlerStep.map fun t => (t, ())
    | .exit => s.exitStep.map fun t => (t, ())
    | .workBegins =>
      if s.queued && !s.running then some ({ s with queued := false, running := true }, ()) else none
    | .workEnds => if s.running then some ({ s with running := false }, ()) else none
    | .death task => some ({ s with dead := fun t => t = task || s.dead t }, ())

def teardown (s : Sys) (pc : HandlerPc) (running : Bool) : Machine Teardown TeardownEvent Unit :=
  ⟨Teardown.start s pc running, teardownStep⟩

/-- No entry is released twice or touched after its release; once `deferred_exit` has returned all are
released, and nothing of the handler and no work is left. -/
structure Quiescent (entries : List MonitorProcess) (s : Teardown) : Prop where
  once : s.released.Nodup
  sound : s.faulted = false
  returned : s.exit = .returned →
    s.released.Perm entries ∧ s.handler = .idle ∧ s.timer = false ∧ s.queued = false ∧ s.running = false

/-- The handler is idle when `cancel_work_sync` returns. -/
def IdleAtCancel (s : Teardown) (e : TeardownEvent) : Prop :=
  e = .exit → s.exit = .cancelWork → s.handler = .idle

theorem teardownStep_cases {s t : Teardown} {e : TeardownEvent} {o : Unit}
    (h : teardownStep s e = some (t, o)) :
    s.faulted = false ∧
    ((e = .expire ∧ s.timer = true ∧ s.handler = .idle ∧
        t = { s with timer := false, handler := .readFlag }) ∨
      (e = .handler ∧ s.handlerStep = some t) ∨
      (e = .exit ∧ s.exitStep = some t) ∨
      (e = .workBegins ∧ s.queued = true ∧ t = { s with queued := false, running := true }) ∨
      (e = .workEnds ∧ t = { s with running := false }) ∨
      (∃ task, e = .death task ∧ t = { s with dead := fun t => t = task || s.dead t })) := by
  unfold teardownStep at h
  by_cases hfault : s.faulted
  · rw [if_pos hfault] at h
    cases h
  rw [if_neg hfault] at h
  refine ⟨by simpa using hfault, ?_⟩
  cases e with
  | expire =>
    left
    dsimp only at h
    split at h
    · next htimer hpc =>
      obtain ⟨rfl, -⟩ := Prod.mk.inj (Option.some.inj h)
      exact ⟨rfl, htimer, hpc, rfl⟩
    · cases h
  | handler =>
    right; left
    obtain ⟨u, hu, heq⟩ := Option.map_eq_some_iff.mp h
    obtain ⟨rfl, -⟩ := Prod.mk.inj heq
    exact ⟨rfl, hu⟩
  | exit =>
    right; right; left
    obtain ⟨u, hu, heq⟩ := Option.map_eq_some_iff.mp h
    obtain ⟨rfl, -⟩ := Prod.mk.inj heq
    exact ⟨rfl, hu⟩
  | workBegins =>
    right; right; right; left
    dsimp only at h
    split_ifs at h with hqueued
    obtain ⟨rfl, -⟩ := Prod.mk.inj (Option.some.inj h)
    exact ⟨rfl, (Bool.and_eq_true_iff.mp hqueued).1, rfl⟩
  | workEnds =>
    right; right; right; right; left
    dsimp only at h
    split_ifs at h
    obtain ⟨rfl, -⟩ := Prod.mk.inj (Option.some.inj h)
    exact ⟨rfl, rfl⟩
  | death task =>
    right; right; right; right; right
    obtain ⟨rfl, -⟩ := Prod.mk.inj (Option.some.inj h)
    exact ⟨task, rfl, rfl⟩

/-! ### The invariant of a teardown that meets the condition -/

/-- Every entry is in the list or released. The handler runs only before `cancel_work_sync` is done, the
loop of `deferred_exit` only after; so each has the list to itself. -/
structure Orderly (entries : List MonitorProcess) (s : Teardown) : Prop where
  perm : (s.released ++ s.list).Perm entries
  sound : s.faulted = false
  handlerAt : s.handler.In s.list
  exclusive : s.handler ≠ .idle → s.exit = .delTimer ∨ s.exit = .cancelWork
  timer : s.exit ≠ .delTimer → s.timer = false
  work : s.exit ≠ .delTimer → s.exit ≠ .cancelWork → s.queued = false ∧ s.running = false
  exitAt : ∀ w, s.exit = .visit w → w = Walk.first s.list
  empty : s.exit = .returned → s.list = []

theorem orderly_start {s : Sys} {pc : HandlerPc} (hpc : pc.In s.dev.list) (running : Bool) :
    Orderly s.dev.list (Teardown.start s pc running) where
  perm := List.Perm.refl _
  sound := rfl
  handlerAt := hpc
  exclusive := fun _ => .inl rfl
  timer := by simp [Teardown.start]
  work := by simp [Teardown.start]
  exitAt := by simp [Teardown.start]
  empty := by simp [Teardown.start]

section

variable {entries : List MonitorProcess} {s t : Teardown}

theorem Orderly.nodup (h : Orderly entries s) (hentries : entries.Nodup) :
    (s.released ++ s.list).Nodup := h.perm.nodup_iff.mpr hentries

theorem Orderly.idle (h : Orderly entries s) (hdel : s.exit ≠ .delTimer) (hcancel : s.exit ≠ .cancelWork) :
    s.handler = .idle := by
  by_contra hne
  rcases h.exclusive hne with hexit | hexit
  · exact hdel hexit
  · exact hcancel hexit

theorem Orderly.quiescent (h : Orderly entries s) (hentries : entries.Nodup) : Quiescent entries s where
  once := (List.nodup_append.mp (h.nodup hentries)).1
  sound := h.sound
  returned := by
    intro hret
    have hidle : s.handler = .idle := h.idle (by simp [hret]) (by simp [hret])
    have hperm := h.perm
    rw [h.empty hret, List.append_nil] at hperm
    obtain ⟨hqueued, hrunning⟩ := h.work (by simp [hret]) (by simp [hret])
    exact ⟨hperm, hidle, h.timer (by simp [hret]), hqueued, hrunning⟩

theorem touch_of_mem {p : MonitorProcess} (h : p ∈ s.list) : s.touch p = s := by
  simp [Teardown.touch, h]

section Round

variable {pre rest : List MonitorProcess} {p : MonitorProcess}

theorem handlerRound_alive (hlist : s.list = pre ++ p :: rest) (hl : s.list.Nodup)
    (halive : s.dead p.task = false) :
    s.handlerRound (Walk.first (p :: rest)) p = { s with handler := .visit (Walk.first rest) } := by
  have hadvance : (Walk.first (p :: rest)).advance s.list = some (Walk.first rest) := by
    rw [hlist] at hl ⊢
    exact Walk.advance_keep hl
  unfold Teardown.handlerRound
  rw [touch_of_mem (by simp [hlist])]
  simp only [halive, Bool.false_eq_true, if_false, hadvance]

theorem handlerRound_dead (hlist : s.list = pre ++ p :: rest) (hl : s.list.Nodup)
    (hdead : s.dead p.task = true) :
    s.handlerRound (Walk.first (p :: rest)) p =
      { s with list := pre ++ rest, released := s.released ++ [p], handler := .visit (Walk.first rest) } := by
  have hnodup : (pre ++ p :: rest).Nodup := hlist ▸ hl
  obtain ⟨herase, hadvance⟩ := Walk.advance_erase hnodup
  unfold Teardown.handlerRound
  rw [touch_of_mem (by simp [hlist])]
  simp only [hdead, if_true, Teardown.release, hlist, herase, hadvance]

theorem exitRound_eq (hlist : s.list = pre ++ p :: rest) (hl : s.list.Nodup) :
    s.exitRound (Walk.first (p :: rest)) p =
      { s with list := pre ++ rest, released := s.released ++ [p], exit := .visit (Walk.first rest) } := by
  have hnodup : (pre ++ p :: rest).Nodup := hlist ▸ hl
  obtain ⟨herase, hadvance⟩ := Walk.advance_erase hnodup
  unfold Teardown.exitRound
  rw [touch_of_mem (by simp [hlist])]
  simp only [Teardown.release, hlist, herase, hadvance]

theorem perm_release {released : List MonitorProcess}
    (h : (released ++ (pre ++ p :: rest)).Perm entries) :
    (released ++ [p] ++ (pre ++ rest)).Perm entries := by
  refine List.Perm.trans ?_ h
  rw [List.append_assoc]
  apply List.Perm.append_left
  show (p :: (pre ++ rest)).Perm _
  exact List.perm_middle.symm

end Round

theorem not_early {pc : ExitPc} (hearly : s.exit = .delTimer ∨ s.exit = .cancelWork) (hpc : s.exit = pc)
    (hdel : pc ≠ .delTimer) (hcancel : pc ≠ .cancelWork) : False := by
  subst hpc
  exact hearly.elim hdel hcancel

theorem Orderly.moveHandler (h : Orderly entries s) (pc : HandlerPc)
    (hat : pc.In s.list)
    (hearly : pc ≠ .idle → s.exit = .delTimer ∨ s.exit = .cancelWork) :
    Orderly entries { s with handler := pc } :=
  { h with handlerAt := hat, exclusive := hearly }

theorem Orderly.handlerRound (h : Orderly entries s) (hentries : entries.Nodup)
    (hearly : s.exit = .delTimer ∨ s.exit = .cancelWork) {pre rest : List MonitorProcess}
    {p : MonitorProcess} (hlist : s.list = pre ++ p :: rest) :
    Orderly entries (s.handlerRound (Walk.first (p :: rest)) p) := by
  have hl : s.list.Nodup := (List.nodup_append.mp (h.nodup hentries)).2.1
  cases hdead : s.dead p.task with
  | false =>
    rw [handlerRound_alive hlist hl hdead]
    refine h.moveHandler _ ?_ fun _ => hearly
    intro w hw
    obtain rfl := HandlerPc.visit.inj hw
    exact ⟨pre ++ [p], rest, by simp [hlist], rfl⟩
  | true =>
    have hperm := h.perm
    rw [hlist] at hperm
    rw [handlerRound_dead hlist hl hdead]
    refine { h with perm := perm_release hperm, handlerAt := ?_, exclusive := ?_, exitAt := ?_, empty := ?_ }
    · intro w hw
      obtain rfl := HandlerPc.visit.inj hw
      exact ⟨pre, rest, rfl, rfl⟩
    · exact fun _ => hearly
    · intro w hw
      exact (not_early hearly hw (by simp) (by simp)).elim
    · intro hret
      exact (not_early hearly hret (by simp) (by simp)).elim

theorem Orderly.handlerStep (h : Orderly entries s) (hentries : entries.Nodup)
    (hstep : s.handlerStep = some t) : Orderly entries t := by
  have hidle : Orderly entries { s with handler := .idle } :=
    h.moveHandler .idle (by simp [HandlerPc.In]) (by simp)
  unfold Teardown.handlerStep at hstep
  split at hstep
  · cases hstep
  · next hpc =>
    have hearly := h.exclusive (by simp [hpc])
    split at hstep
    · obtain rfl := Option.some.inj hstep
      exact h.moveHandler _ (by simp [HandlerPc.In]) fun _ => hearly
    · obtain rfl := Option.some.inj hstep
      exact h.moveHandler _ (by simp [HandlerPc.In]) fun _ => hearly
    · obtain rfl := Option.some.inj hstep
      exact hidle
  · next hpc =>
    have hearly := h.exclusive (by simp [hpc])
    obtain rfl := Option.some.inj hstep
    refine { hidle with work := ?_ }
    intro h1 h2
    exact (hearly.elim h1 h2).elim
  · next hpc =>
    have hearly := h.exclusive (by simp [hpc])
    obtain rfl := Option.some.inj hstep
    refine h.moveHandler _ ?_ fun _ => hearly
    intro w hw
    obtain rfl := HandlerPc.visit.inj hw
    exact Walk.first_at _
  · next w hpc =>
    have hearly := h.exclusive (by simp [hpc])
    obtain ⟨pre, rest, hlist, rfl⟩ := h.handlerAt w hpc
    cases rest with
    | nil =>
      obtain rfl := Option.some.inj hstep
      exact hidle
    | cons p rest =>
      obtain rfl := Option.some.inj hstep
      exact h.handlerRound hentries hearly hlist

theorem Orderly.exitStep (h : Orderly entries s) (hentries : entries.Nodup)
    (hidle : s.exit = .cancelWork → s.handler = .idle) (hstep : s.exitStep = some t) :
    Orderly entries t := by
  have hl : s.list.Nodup := (List.nodup_append.mp (h.nodup hentries)).2.1
  unfold Teardown.exitStep at hstep
  split at hstep
  · next hpc =>
    obtain rfl := Option.some.inj hstep
    exact { h with
      exclusive := fun _ => .inr rfl
      timer := fun _ => rfl
      work := fun _ hne => (hne rfl).elim
      exitAt := by simp
      empty := by simp }
  · next hpc =>
    split_ifs at hstep with hrunning
    obtain rfl := Option.some.inj hstep
    exact { h with
      exclusive := fun hne => (hne (hidle hpc)).elim
      timer := fun _ => h.timer (by simp [hpc])
      work := fun _ _ => ⟨rfl, by simpa using hrunning⟩
      exitAt := by simp
      empty := by simp }
  · next hpc =>
    have hquiet := h.idle (by simp [hpc]) (by simp [hpc])
    obtain rfl := Option.some.inj hstep
    exact { h with
      exclusive := fun hne => (hne hquiet).elim
      timer := fun _ => h.timer (by simp [hpc])
      work := fun _ _ => h.work (by simp [hpc]) (by simp [hpc])
      exitAt := fun w hw => (ExitPc.visit.inj hw).symm
      empty := by simp }
  · next w hpc =>
    have hquiet := h.idle (by simp [hpc]) (by simp [hpc])
    have htimer := h.timer (by simp [hpc])
    have hwork := h.work (by simp [hpc]) (by simp [hpc])
    obtain rfl := h.exitAt w hpc
    cases hlist : s.list with
    | nil =>
      have hpos : (Walk.first s.list).pos = none := by rw [hlist]; rfl
      rw [hpos] at hstep
      obtain rfl := Option.some.inj hstep
      exact { h with
        exclusive := fun hne => (hne hquiet).elim
        timer := fun _ => htimer
        work := fun _ _ => hwork
        exitAt := by simp
        empty := fun _ => hlist }
    | cons p rest =>
      have hperm := h.perm
      rw [hlist] at hstep hperm
      obtain rfl := Option.some.inj hstep
      rw [@exitRound_eq s [] rest p hlist hl]
      exact { h with
        perm := @perm_release entries [] rest p s.released hperm
        handlerAt := fun w hw => HandlerPc.noConfusion (hquiet.symm.trans hw)
        exclusive := fun hne => (hne hquiet).elim
        timer := fun _ => htimer
        work := fun _ _ => hwork
        exitAt := fun w hw => (ExitPc.visit.inj hw).symm
        empty := by simp }
  · cases hstep

theorem Orderly.step (h : Orderly entries s) (hentries : entries.Nodup) {e : TeardownEvent} {o : Unit}
    (hidle : IdleAtCancel s e) (hstep : teardownStep s e = some (t, o)) : Orderly entries t := by
  obtain ⟨-, ⟨-, htimer, -, rfl⟩ | ⟨-, hu⟩ | ⟨rfl, hu⟩ | ⟨-, hqueued, rfl⟩ | ⟨-, rfl⟩ | ⟨task, -, rfl⟩⟩ :=
    teardownStep_cases hstep
  · have hdel : s.exit = .delTimer := by
      by_contra hne
      exact Bool.false_ne_true ((h.timer hne).symm.trans htimer)
    exact { h with
      handlerAt := by simp [HandlerPc.In]
      exclusive := fun _ => .inl hdel
      timer := fun _ => rfl }
  · exact h.handlerStep hentries hu
  · exact h.exitStep hentries (hidle rfl) hu
  · refine { h with work := ?_ }
    intro h1 h2
    exact (Bool.false_ne_true ((h.work h1 h2).1.symm.trans hqueued)).elim
  · exact { h with work := fun h1 h2 => ⟨(h.work h1 h2).1, rfl⟩ }
  · exact { h with }

/-! ### A handler that is still running -/

theorem handlerStep_exit (hstep : s.handlerStep = some t) : t.exit = s.exit := by
  unfold Teardown.handlerStep at hstep
  split at hstep
  · cases hstep
  · split at hstep <;> obtain rfl := Option.some.inj hstep <;> rfl
  · obtain rfl := Option.some.inj hstep
    rfl
  · obtain rfl := Option.some.inj hstep
    rfl
  · split at hstep
    · obtain rfl := Option.some.inj hstep
      rfl
    · obtain rfl := Option.some.inj hstep
      unfold Teardown.handlerRound Teardown.release Teardown.touch
      dsimp only
      split <;> split <;> rfl

theorem exitStep_early (hstep : s.exitStep = some t) (ht : t.exit = .delTimer ∨ t.exit = .cancelWork) :
    s.exit = .delTimer := by
  unfold Teardown.exitStep at hstep
  split at hstep
  · next hpc => exact hpc
  · split_ifs at hstep
    obtain rfl := Option.some.inj hstep
    simp at ht
  · obtain rfl := Option.some.inj hstep
    simp at ht
  · next w hpc =>
    split at hstep
    · obtain rfl := Option.some.inj hstep
      simp at ht
    · obtain rfl := Option.some.inj hstep
      unfold Teardown.exitRound Teardown.release Teardown.touch at ht
      dsimp only at ht
      split at ht <;> simp [hpc] at ht
  · cases hstep

theorem idleAtCancel_of_early {e : TeardownEvent} {o : Unit} (hstep : teardownStep s e = some (t, o))
    (ht : t.exit = .delTimer ∨ t.exit = .cancelWork) :
    (s.exit = .delTimer ∨ s.exit = .cancelWork) ∧ IdleAtCancel s e := by
  obtain ⟨-, ⟨rfl, -, -, rfl⟩ | ⟨rfl, hu⟩ | ⟨rfl, hu⟩ | ⟨rfl, -, rfl⟩ | ⟨rfl, rfl⟩ | ⟨task, rfl, rfl⟩⟩ :=
    teardownStep_cases hstep
  · exact ⟨ht, by simp [IdleAtCancel]⟩
  · rw [handlerStep_exit hu] at ht
    exact ⟨ht, by simp [IdleAtCancel]⟩
  · have hdel := exitStep_early hu ht
    exact ⟨.inl hdel, by simp [IdleAtCancel, hdel]⟩
  · exact ⟨ht, by simp [IdleAtCancel]⟩
  · exact ⟨ht, by simp [IdleAtCancel]⟩
  · exact ⟨ht, by simp [IdleAtCancel]⟩

/-- `deferred_exit` has run through its loop and returned. -/
def Teardown.exited (s : Teardown) : Teardown :=
  { s with list := [], released := s.released ++ s.list, exit := .returned }

theorem exit_runs_to_end (d : Sys) (pc : HandlerPc) (running : Bool) (hsound : s.faulted = false)
    (hl : s.list.Nodup) (hexit : s.exit = .visit (Walk.first s.list)) :
    ∃ us os, (teardown d pc running).runFrom s us = some (s.exited, os) := by
  induction hlist : s.list generalizing s with
  | nil =>
    have hexited : s.exited = { s with exit := .returned } := by
      simp [Teardown.exited, ← hlist]
    rw [hlist] at hexit
    refine ⟨[.exit], [()], ?_⟩
    rw [hexited]
    simp [Machine.runFrom_cons, teardown, teardownStep, hsound, Teardown.exitStep, hexit, Walk.first]
  | cons p rest ih =>
    have hround := @exitRound_eq s [] rest p hlist hl
    rw [hlist] at hexit
    have hstep : (teardown d pc running).step s .exit =
        some (s.exitRound (Walk.first (p :: rest)) p, ()) := by
      simp [teardown, teardownStep, hsound, Teardown.exitStep, hexit, Walk.first]
    have hexited : (s.exitRound (Walk.first (p :: rest)) p).exited = s.exited := by
      rw [hround]
      simp [Teardown.exited, hlist]
    rw [hlist, List.nodup_cons] at hl
    obtain ⟨us, os, hrun⟩ := ih (s := s.exitRound (Walk.first (p :: rest)) p)
      (by rw [hround]; exact hsound) (by rw [hround]; exact hl.2) (by rw [hround]; rfl)
      (by rw [hround]; rfl)
    rw [hexited] at hrun
    exact ⟨.exit :: us, () :: os, (teardown d pc running).runFrom_cons_eq_some.mpr
      ⟨_, _, _, hstep, hrun, rfl⟩⟩

end

/-! ### With nothing in between

The handler and `deferred_exit` alone do what `timerHandler` and `deferredExit` do in one step. -/

section Alone

variable {s : Teardown}

theorem handlerLoop_alone (d : Sys) (pc : HandlerPc) (running : Bool) {k : Tasks}
    {pre rest : List MonitorProcess} (hsound : s.faulted = false) (hdead : s.dead = k.dead)
    (hlist : s.list = pre ++ rest) (hl : s.list.Nodup) (hpc : s.handler = .visit (Walk.first rest)) :
    ∃ us u os released, (teardown d pc running).runFrom s us = some (u, os) ∧ u.handler = .idle ∧
      u.queued = s.queued ∧ u.list = pre ++ (scanList rest k).1 ∧ u.released = s.released ++ released ∧
      (scanList rest k).2.reports = k.reports ++ released := by
  induction rest generalizing s k pre with
  | nil =>
    refine ⟨[.handler], { s with handler := .idle }, [()], [], ?_, rfl, rfl, hlist, by simp, ?_⟩
    · simp [Machine.runFrom_cons, teardown, teardownStep, hsound, Teardown.handlerStep, hpc, Walk.first]
    · simp [scanList]
  | cons p rest ih =>
    have hstep : (teardown d pc running).step s .handler =
        some (s.handlerRound (Walk.first (p :: rest)) p, ()) := by
      simp [teardown, teardownStep, hsound, Teardown.handlerStep, hpc, Walk.first]
    rw [scanList]
    cases hp : k.dead p.task with
    | false =>
      rw [handlerRound_alive hlist hl (hdead ▸ hp)] at hstep
      have hbehind : s.list = (pre ++ [p]) ++ rest := by simp [hlist]
      obtain ⟨us, u, os, released, hrun, hidle, hqueued, hkept, hreleased, hreports⟩ :=
        ih (s := { s with handler := .visit (Walk.first rest) }) (k := k) hsound hdead hbehind hl rfl
      refine ⟨.handler :: us, u, () :: os, released, ?_, hidle, hqueued, ?_, hreleased, hreports⟩
      · exact (teardown d pc running).runFrom_cons_eq_some.mpr ⟨_, _, _, hstep, hrun, rfl⟩
      · simpa using hkept
    | true =>
      rw [handlerRound_dead hlist hl (hdead ▸ hp)] at hstep
      have hrest : (pre ++ rest).Nodup := by
        rw [hlist] at hl
        exact hl.sublist (List.sublist_cons_self p rest |>.append_left pre)
      obtain ⟨us, u, os, released, hrun, hidle, hqueued, hkept, hreleased, hreports⟩ :=
        ih (s := { s with
            list := pre ++ rest
            released := s.released ++ [p]
            handler := .visit (Walk.first rest) })
          (k := { k with reports := k.reports ++ [p] }.putTaskStruct p.task) hsound hdead rfl hrest rfl
      refine ⟨.handler :: us, u, () :: os, p :: released, ?_, hidle, hqueued, ?_, ?_, ?_⟩
      · exact (teardown d pc running).runFrom_cons_eq_some.mpr ⟨_, _, _, hstep, hrun, rfl⟩
      · simpa using hkept
      · simpa using hreleased
      · simpa [Tasks.putTaskStruct] using hreports

theorem handler_alone {d : Sys} (hl : d.dev.list.Nodup) (running : Bool) :
    ∃ us u os, (teardown d .readFlag running).run us = some (u, os) ∧ u.handler = .idle ∧
      u.queued = (timerHandler d).1.dev.workQueue ∧ u.list = (timerHandler d).1.dev.list ∧
      (timerHandler d).1.tasks.reports = d.tasks.reports ++ u.released := by
  have hdone : d.dev.flag = .set ∨ d.dev.flag = .none →
      (teardown d .readFlag running).run [.handler] = some (Teardown.start d .idle running, [()]) := by
    rintro (hflag | hflag) <;>
      simp [Machine.run, Machine.runFrom_cons, teardown, teardownStep, Teardown.start,
        Teardown.handlerStep, hflag]
  unfold timerHandler
  cases hflag : d.dev.flag with
  | set => exact ⟨_, _, _, hdone (.inl hflag), rfl, rfl, rfl, (List.append_nil _).symm⟩
  | alloc =>
    refine ⟨[.handler, .handler], { Teardown.start d .idle running with queued := true }, [(), ()], ?_,
      rfl, rfl, rfl, (List.append_nil _).symm⟩
    simp [Machine.run, Machine.runFrom_cons, teardown, teardownStep, Teardown.start,
      Teardown.handlerStep, hflag]
  | monitor =>
    have hlock : (teardown d .readFlag running).runFrom (Teardown.start d .readFlag running)
        [.handler, .handler] =
          some (Teardown.start d (.visit (Walk.first d.dev.list)) running, [(), ()]) := by
      simp [Machine.runFrom_cons, teardown, teardownStep, Teardown.start, Teardown.handlerStep, hflag]
    have hfirst : d.dev.list = [] ++ d.dev.list := rfl
    obtain ⟨us, u, os, released, hrun, hidle, hqueued, hkept, hreleased, hreports⟩ :=
      handlerLoop_alone d .readFlag running (s := Teardown.start d (.visit (Walk.first d.dev.list)) running)
        (k := d.tasks) rfl rfl hfirst hl rfl
    refine ⟨[.handler, .handler] ++ us, u, [(), ()] ++ os, ?_, hidle, hqueued, hkept, ?_⟩
    · exact (teardown d .readFlag running).runFrom_append_eq_some.mpr ⟨_, _, _, hlock, hrun, rfl⟩
    · rw [hreleased]
      exact hreports
  | none => exact ⟨_, _, _, hdone (.inr hflag), rfl, rfl, rfl, (List.append_nil _).symm⟩

theorem exit_alone {d : Sys} (hl : d.dev.list.Nodup) :
    ∃ us u os, (teardown d .idle false).run us = some (u, os) ∧ u.exit = .returned ∧
      u.list = (deferredExit d).dev.list ∧ u.queued = (deferredExit d).dev.workQueue ∧
      u.timer = (deferredExit d).dev.timer.isSome ∧ u.released = d.dev.list := by
  obtain ⟨us, os, hloop⟩ := exit_runs_to_end d .idle false (s := { Teardown.start d .idle false with
    timer := false
    queued := false
    exit := .visit (Walk.first d.dev.list) }) rfl hl rfl
  refine ⟨.exit :: .exit :: .exit :: us, Teardown.exited { Teardown.start d .idle false with
    timer := false
    queued := false
    exit := .visit (Walk.first d.dev.list) }, () :: () :: () :: os, ?_, rfl, rfl, rfl, rfl, rfl⟩
  unfold Machine.run
  simp only [Machine.runFrom_cons_eq_some]
  exact ⟨_, _, _, rfl, ⟨_, _, _, rfl, ⟨_, _, _, rfl, hloop, rfl⟩, rfl⟩, rfl⟩

end Alone

/-! ### The result -/

theorem orderly_before_cancel {s : Sys} (hentries : s.dev.list.Nodup) {pc : HandlerPc}
    (hpc : pc.In s.dev.list) (running : Bool) :
    (teardown s pc running).Invariant fun t =>
      t.exit = .delTimer ∨ t.exit = .cancelWork → Orderly s.dev.list t where
  init := fun _ => orderly_start hpc running
  step := by
    intro t u e o ht hstep hu
    obtain ⟨hearly, hidle⟩ := idleAtCancel_of_early hstep hu
    exact (ht hearly).step hentries hidle hstep

/-- Unload the driver in any state it reaches, with the handler at any of its points. If the handler is
idle whenever `cancel_work_sync` returns, then in every interleaving each entry is released once and
nothing is left to run after `deferred_exit`. Wherever it is not idle, `deferred_exit` can go on to return
before the handler does. -/
theorem unload_quiescent (HZ : Nat) (dead : Nat → Bool) {es : List TimerEvent} {s : Sys}
    {os : List TimerOutput} (hrun : (timer HZ dead).run es = some (s, os)) {pc : HandlerPc}
    (hpc : pc.In s.dev.list) (running : Bool) :
    (∀ ts, (teardown s pc running).EveryStep IdleAtCancel ts →
      (teardown s pc running).Always (Quiescent s.dev.list) ts) ∧
    (∀ ts t os', (teardown s pc running).run ts = some (t, os') → t.exit = .cancelWork →
      t.running = false → ¬ IdleAtCancel t .exit →
      ∃ us u os'', (teardown s pc running).run (ts ++ .exit :: us) = some (u, os'') ∧
        ¬ Quiescent s.dev.list u) := by
  have hentries : s.dev.list.Nodup := by
    have hs : Accounted s := (timer_accounted HZ dead).run hrun
    have hdistinct := hs.distinct
    rw [List.map_append] at hdistinct
    exact List.Nodup.of_map _ (List.nodup_append.mp hdistinct).1
  constructor
  · intro ts hts
    have horderly : (teardown s pc running).Always (Orderly s.dev.list) ts :=
      Machine.always_of_everyStep (orderly_start hpc running)
        (fun h hidle hstep => h.step hentries hidle hstep) hts
    intro pre t os' hpre ht
    exact (horderly pre t os' hpre ht).quiescent hentries
  · intro ts t os' hts hexit hrunning hidle
    have h : Orderly s.dev.list t := (orderly_before_cancel hentries hpc running).run hts (.inr hexit)
    have hl : t.list.Nodup := (List.nodup_append.mp (h.nodup hentries)).2.1
    have hbusy : t.handler ≠ .idle := by
      intro heq
      exact hidle fun _ _ => heq
    -- `cancel_work_sync` returns and the loop is entered
    have hcancel : (teardown s pc running).step t .exit =
        some ({ t with queued := false, exit := .enterLoop }, ()) := by
      simp [teardown, teardownStep, h.sound, Teardown.exitStep, hexit, hrunning]
    have henter : (teardown s pc running).step { t with queued := false, exit := .enterLoop } .exit =
        some ({ t with queued := false, exit := .visit (Walk.first t.list) }, ()) := by
      simp [teardown, teardownStep, h.sound, Teardown.exitStep]
    obtain ⟨us, os'', hloop⟩ := exit_runs_to_end s pc running
      (s := { t with queued := false, exit := .visit (Walk.first t.list) }) h.sound hl rfl
    refine ⟨.exit :: us, Teardown.exited { t with queued := false, exit := .visit (Walk.first t.list) },
      os' ++ () :: () :: os'', ?_, ?_⟩
    · refine (teardown s pc running).runFrom_append_eq_some.mpr ⟨t, os', () :: () :: os'', hts, ?_, rfl⟩
      refine (teardown s pc running).runFrom_cons_eq_some.mpr ⟨_, _, _, hcancel, ?_, rfl⟩
      exact (teardown s pc running).runFrom_cons_eq_some.mpr ⟨_, _, _, henter, hloop, rfl⟩
    · intro hquiet
      exact hbusy (hquiet.returned rfl).2.1

/-- The driver monitors one process. -/
def monitorOne : List TimerEvent := [.ioctl MY_IOCTL_TIMER_MONITOR 5 ⟨0, fun _ => some 1, true⟩]

def monitored : Sys :=
  ⟨⟨some 250, false, [⟨0, 1⟩], .monitor⟩, ⟨fun _ => false, Ledger.get (fun _ => 0) 1, 1, []⟩, true⟩

theorem monitorOne_run : (timer 250 fun _ => false).run monitorOne = some (monitored, [.returned 0]) := rfl

/-- The process dies, the timer expires, and the handler is in its loop when the driver is unloaded:
`deferred_exit` frees the entry under it, and the handler frees it once more. -/
theorem entry_released_twice :
    ∃ os, (timer 250 fun _ => false).run monitorOne = some (monitored, os) ∧
      ¬ (teardown monitored .idle false).Always (Quiescent monitored.dev.list)
        [.death 1, .expire, .handler, .handler, .exit, .exit, .exit, .exit, .handler] := by
  refine ⟨_, monitorOne_run, ?_⟩
  intro h
  have hquiet := h _ _ [(), (), (), (), (), (), (), (), ()] (List.prefix_refl _) rfl
  exact absurd hquiet.once (by decide)

/-- A handler that was about to take its lock finds the process alive and is done before the work is
cancelled; `deferred_exit` frees the entry and returns. -/
def handlerThenExit : List TeardownEvent :=
  [.handler, .handler, .handler] ++ [.exit] ++ [.exit] ++ [.exit] ++ [.exit] ++ [.exit]

theorem unload_quiescent_monitorOne :
    ∃ t os, (teardown monitored .lock false).run handlerThenExit = some (t, os) ∧ t.exit = .returned ∧
      (teardown monitored .lock false).Always (Quiescent monitored.dev.list) handlerThenExit := by
  refine ⟨_, _, rfl, rfl, ?_⟩
  apply (unload_quiescent 250 (fun _ => false) monitorOne_run (by simp [HandlerPc.In]) false).1
  unfold handlerThenExit
  simp only [Machine.everyStep_concat]
  refine ⟨⟨⟨⟨⟨?_, ?_⟩, ?_⟩, ?_⟩, ?_⟩, ?_⟩
  · intro pre e t os hpre _ he
    have hmem := Machine.mem_of_prefix_concat hpre
    subst he
    simp at hmem
  · intro t os hrun _ hexit
    obtain ⟨rfl, -⟩ := Prod.mk.inj (Option.some.inj hrun)
    cases hexit
  all_goals
    intro t os hrun _ _
    obtain ⟨rfl, -⟩ := Prod.mk.inj (Option.some.inj hrun)
    rfl

end DeviceDrivers.Timer
